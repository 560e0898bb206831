import ViewMarkup.Proofs.Walk.OpenTags

/-!
# Splice points stay valid

An open slot and an open custom element keep a position in a buffer that goes on growing, and into
which code is put in the middle.  Between two tags these positions are still right: the branch of a
slot stands just before its splice point, and the variable for the slot contents of a custom element
just before that of the element.

* `startsAlong` keeps, for every open frame, what its buffer was before it was opened.
* `Spliced` says of an open view that this is still there, and where its splice point is.
* `Anchored` says so of all open views; `Anchored.starts` and `Anchored.ends`: tags keep this.
* `events_splices` puts the two together, with what follows for closing slots and slot contents.
-/

namespace ViewMarkup

open List
open Element (attributeEvents eventsOf)

/-- What decides about the splice point of a frame. -/
def Frame.anchor (frame : Frame) : (TagKind × Text × Int × Bool × Bool) × (Nat × Option Text × Bool) ×
    Option (List Fragment) :=
  ((frame.kind, frame.tagName, frame.index, frame.ignored, frame.placed),
    (frame.splice, frame.slotName, frame.isCustom), frame.own)

namespace Walk

open OpenTag (openTags)
open Draft (Finished bufferOf buffer_modifyTop buffer_push buffer_setBuffer finished_code finished_nil
  frames_push length_modifyTop length_setBuffer push_inj setBuffer_buffer setBuffer_push
  setBuffer_setBuffer)

variable {options : Options} {name : Text} {attributes : AttributeMap} {frame f g : Frame}
  {start b c : List Fragment} {saved : List (List Fragment)} {d : Draft} {w v : Walk} {u : Walk}
  {content : List Fragment}

/-! ### What buffers were -/

/-- What the buffers of open frames were before these were opened, after one more event. -/
def startsAt (saved : List (List Fragment)) (w v : Walk) : TagEvent → List (List Fragment)
  | .openTag _ =>
    if w.draft.frames.length < v.draft.frames.length then w.draft.buffer :: saved else saved
  | .closeTag _ => if v.draft.frames.length < w.draft.frames.length then saved.tail else saved
  | _ => saved

/-- What the buffers of open frames were before these were opened, the innermost first. -/
def startsAlong (options : Options) (saved : List (List Fragment)) :
    List TagEvent → Walk → List (List Fragment)
  | [], _ => saved
  | e :: rest, w =>
    match event options e w with
    | .ok _ v => startsAlong options (startsAt saved w v e) rest v
    | .error _ _ => saved

/-! ### Splice points -/

/-- The code of a custom element: the variable for the contents of its slots, what has been given for
them, and what builds the element. -/
def customCode (options : Options) (frame : Frame) (path : Text) (isFallback : Bool)
    (given : List Fragment) : List Fragment :=
  .code (.letStatement (Construction.slotViewsName frame.index) (.object [])) ::
    (given ++ (Construction.constructCustom options.settings frame.index
      (Name.split frame.tagName).1 path isFallback).map .code)

/-- **Where the splice point of an open view is**, given what its buffer was before it was opened,
and what it is. -/
structure Spliced (options : Options) (frame : Frame) (start buffer : List Fragment) : Prop where
  kept : start <+: buffer
  /-- The branch of a slot stands just before its splice point. -/
  slot : frame.isSlot = true → ∃ before inside name, frame.slotName = some name ∧
    start <+: before ∧ frame.splice = before.length + 1 ∧
    buffer = before ++ .slot (options.settings.elementName frame.index) name :: inside
  /-- The splice point of a custom element lies just after the variable for the contents of its
  slots. -/
  custom : frame.isCustom = true → frame.isSlot = false ∧ ∃ before path isFallback given rest,
    start <+: before ∧ frame.splice = before.length + 1 ∧
    buffer = before ++ customCode options frame path isFallback given ++ rest

theorem Spliced.extend (h : Spliced options frame start b) (hbc : b <+: c) :
    Spliced options frame start c := by
  obtain ⟨more, rfl⟩ := hbc
  apply Spliced.mk
  case kept => exact h.kept.trans (prefix_append _ _)
  case slot =>
    intro hslot
    obtain ⟨before, inside, name, hname, hstart, hsplice, rfl⟩ := h.slot hslot
    exact ⟨before, inside ++ more, name, hname, hstart, hsplice, by simp⟩
  case custom =>
    intro hcustom
    obtain ⟨hslot, before, path, isFallback, given, rest, hstart, hsplice, rfl⟩ := h.custom hcustom
    exact ⟨hslot, before, path, isFallback, given, rest ++ more, hstart, hsplice, by simp⟩

theorem Spliced.congr (h : Spliced options f start b) (hfg : g.anchor = f.anchor) :
    Spliced options g start b := by
  simp only [Frame.anchor, Prod.mk.injEq] at hfg
  obtain ⟨⟨hkind, htag, hindex, _⟩, ⟨hsplice, hname, hcustom⟩, _⟩ := hfg
  have hslot : g.isSlot = f.isSlot := by rw [Frame.isSlot, Frame.isSlot, hkind, htag]
  apply Spliced.mk h.kept
  case slot =>
    rw [hslot, hname, hsplice, hindex]
    exact h.slot
  case custom =>
    simp only [customCode]
    rw [hslot, hcustom, hsplice, hindex, htag]
    exact h.custom

/-- **The splice points of all open views are right.**  The draft below a view is looked at with the
buffer as it was before the view was opened. -/
inductive Anchored (options : Options) : Draft → List (List Fragment) → Prop
  | bare {body : List Fragment} (hfinished : Finished body) : Anchored options ⟨[], body⟩ []
  | view {e d : Draft} {frame : Frame} {start b : List Fragment} {saved : List (List Fragment)}
      (hdraft : e = (d.setBuffer b).push frame) (hkind : frame.kind = .view)
      (hignored : frame.ignored = false) (hown : frame.own = none)
      (hbelow : Anchored options (d.setBuffer start) saved)
      (hspliced : Spliced options frame start b) (hfinished : Finished b) :
      Anchored options e (start :: saved)
  /-- While a tag with a buffer of its own is open, the one below stays as it was, but for the place
  of a factory. -/
  | part {e d : Draft} {frame : Frame} {own start : List Fragment} {saved : List (List Fragment)}
      (hdraft : e = d.push frame) (hkind : frame.kind = .view → frame.ignored = true)
      (hown : frame.own = some own) (hbelow : Anchored options (d.setBuffer start) saved)
      (hstart : if frame.placed then ∃ shape, d.buffer = start ++ [.factory shape]
        else d.buffer = start)
      (hfinished : Finished own) : Anchored options e (start :: saved)

theorem Anchored.finished (h : Anchored options d saved) : Finished d.buffer := by
  cases h with
  | bare hfinished => exact hfinished
  | view hdraft _ _ hown _ _ hfinished =>
    rw [hdraft, buffer_push hown, buffer_setBuffer]
    exact hfinished
  | part hdraft _ hown _ _ hfinished =>
    rw [hdraft, Draft.buffer_push_own hown]
    exact hfinished

/-- Code may be added to the buffer of the top. -/
theorem Anchored.extend (h : Anchored options d saved) (hb : d.buffer <+: b) (hfinished : Finished b) :
    Anchored options (d.setBuffer b) saved := by
  cases h with
  | bare => exact .bare hfinished
  | view hdraft hkind hignored hown hbelow hspliced =>
    rw [hdraft, buffer_push hown, buffer_setBuffer] at hb
    rw [hdraft, setBuffer_push hown, setBuffer_setBuffer]
    exact .view rfl hkind hignored hown hbelow (hspliced.extend hb) hfinished
  | @part _ d frame own start saved hdraft hkind hown hbelow hstart =>
    rw [hdraft, Draft.setBuffer_push_own (by rw [hown]; rfl)]
    refine .part rfl ?_ rfl hbelow hstart hfinished
    exact hkind

/-- A frame may change if its splice point stays where it is. -/
theorem Anchored.modifyTop {change : Frame → Frame} (h : Anchored options d saved)
    (hchange : ∀ frame, (change frame).anchor = frame.anchor) :
    Anchored options (d.modifyTop change) saved := by
  have hparts (frame : Frame) : (change frame).kind = frame.kind ∧
      (change frame).ignored = frame.ignored ∧ (change frame).placed = frame.placed ∧
      (change frame).own = frame.own := by
    have hframe := hchange frame
    simp only [Frame.anchor, Prod.mk.injEq] at hframe
    exact ⟨hframe.1.1, hframe.1.2.2.2.1, hframe.1.2.2.2.2, hframe.2.2⟩
  cases h with
  | bare hfinished => exact .bare hfinished
  | @view _ _ frame _ _ _ hdraft hkind hignored hown hbelow hspliced hfinished =>
    obtain ⟨hkind', hignored', _, hown'⟩ := hparts frame
    rw [hdraft, Draft.modifyTop_push]
    exact .view rfl (hkind'.trans hkind) (hignored'.trans hignored) (hown'.trans hown) hbelow
      (hspliced.congr (hchange frame)) hfinished
  | @part _ d frame own start saved hdraft hkind hown hbelow hstart hfinished =>
    obtain ⟨hkind', hignored', hplaced', hown'⟩ := hparts frame
    rw [hdraft, Draft.modifyTop_push]
    apply Anchored.part rfl ?_ (hown'.trans hown) hbelow ?_ hfinished
    · rw [hkind', hignored']
      exact hkind
    · rw [hplaced']
      exact hstart

/-- Whether a view is open that has not been left out. -/
def isOpenView (frame : Frame) : Bool :=
  frame.kind = .view && !frame.ignored

/-- What is known of every open view. -/
theorem Anchored.spliced (h : Anchored options d saved) :
    ∀ c, d.buffer <+: c → ∀ above frame below,
      (d.setBuffer c).frames = above ++ frame :: below → isOpenView frame = true →
      ∃ start, saved[above.length]? = some start ∧
        Spliced options frame start (bufferOf (d.setBuffer c).body (frame :: below)) := by
  induction h with
  | bare =>
    intro c _ above frame below hframes
    cases above <;> cases hframes
  | @view _ d top start _ _ hdraft hkind hignored hown hbelow hspliced _ ih =>
    intro c hc above frame below hframes hopen
    rw [hdraft, buffer_push hown, buffer_setBuffer] at hc
    rw [hdraft, setBuffer_push hown, setBuffer_setBuffer] at hframes ⊢
    cases above with
    | nil =>
      obtain ⟨rfl, rfl⟩ := cons.inj hframes
      refine ⟨start, rfl, ?_⟩
      rw [show bufferOf ((d.setBuffer c).push top).body (top :: (d.setBuffer c).frames) =
        ((d.setBuffer c).push top).buffer from rfl, buffer_push hown, buffer_setBuffer]
      exact hspliced.extend hc
    | cons first above =>
      have hrest := (cons.inj hframes).2
      rw [← setBuffer_setBuffer d start c] at hrest ⊢
      refine ih c ?_ above frame below hrest hopen
      rw [buffer_setBuffer]
      exact hspliced.kept.trans hc
  | @part _ d top own start saved hdraft hkind hown hbelow hstart _ ih =>
    intro c _ above frame below hframes hopen
    rw [hdraft, Draft.setBuffer_push_own (by rw [hown]; rfl)] at hframes ⊢
    cases above with
    | nil =>
      obtain ⟨rfl, rfl⟩ := cons.inj hframes
      rw [isOpenView, Bool.and_eq_true, decide_eq_true_eq, Bool.not_eq_true'] at hopen
      cases (hkind hopen.1).symm.trans hopen.2
    | cons first above =>
      have hrest := (cons.inj hframes).2
      have hsame : (d.setBuffer start).setBuffer d.buffer = d := by
        rw [setBuffer_setBuffer, setBuffer_buffer]
      have hbuffer : (d.setBuffer start).buffer <+: d.buffer := by
        rw [buffer_setBuffer]
        split at hstart
        · obtain ⟨shape, heq⟩ := hstart
          rw [heq]
          exact prefix_append _ _
        · exact hstart ▸ prefix_refl _
      rw [← hsame] at hrest ⊢
      exact ih d.buffer hbuffer above frame below hrest hopen

/-! ### The start of a tag -/

theorem draft_of_inTag (h : core v = inTag u d frame b) : v.draft = (d.push frame).setBuffer b :=
  (congrArg draft h :)

theorem draft_of_ended (h : core v = ended u d b) : v.draft = (d.modifyTop shut).setBuffer b :=
  (congrArg draft h :)

/-- A tag with a buffer of its own is put on top. -/
theorem Anchored.push (h : Anchored options d saved) (hkind : frame.kind = .view → frame.ignored = true)
    (hown : frame.own = some []) (hplaced : frame.placed = false) :
    Anchored options (d.push frame) (d.buffer :: saved) := by
  refine .part rfl hkind hown ?_ ?_ finished_nil
  · rw [setBuffer_buffer]
    exact h
  · rw [hplaced]
    rfl

/-- A view is put on top, and writes into the buffer below. -/
theorem Anchored.pushView (h : Anchored options d saved) (hkind : frame.kind = .view)
    (hignored : frame.ignored = false) (hown : frame.own = none)
    (hspliced : Spliced options frame d.buffer b) (hfinished : Finished b) :
    Anchored options ((d.push frame).setBuffer b) (d.buffer :: saved) := by
  rw [setBuffer_push hown]
  exact .view rfl hkind hignored hown ((setBuffer_buffer d).symm ▸ h) hspliced hfinished

theorem anchor_recordChild (view frame : Frame) : (recordChild view frame).anchor = frame.anchor := by
  unfold recordChild
  dsimp only
  split <;> split <;> rfl

theorem spliced_slot (options : Options) (attributes : AttributeMap) (index : Int)
    (start lead : List Fragment) :
    Spliced options (slotFrame options attributes index (start ++ lead).length) start
      (start ++ lead ++ slotOpening options attributes index) := by
  apply Spliced.mk
  case kept =>
    rw [append_assoc]
    exact prefix_append _ _
  case slot =>
    intro _
    refine ⟨start ++ lead ++ [.code (Construction.declareOnly (options.settings.elementName index))],
      [], Element.slotName attributes, rfl, ?_, ?_, ?_⟩
    · rw [append_assoc]
      exact prefix_append _ _
    · rw [length_append, length_append, length_append]
      rfl
    · rw [slotOpening, append_assoc _ [_]]
      rfl
  case custom => rintro ⟨⟩

theorem spliced_element (options : Options) (path : Option Text) (hname : name ≠ Frame.slotTag)
    (attributes : AttributeMap) (index : Int) (start lead : List Fragment) (isFallback : Bool) :
    Spliced options (elementFrame options path name attributes index (start ++ lead).length) start
      (start ++ lead ++ elementOpening options path name attributes index isFallback) := by
  have hslot : (elementFrame options path name attributes index (start ++ lead).length).isSlot =
      false := by
    rw [Frame.isSlot, show (elementFrame options path name attributes index _).tagName = name from rfl,
      decide_eq_false hname, Bool.and_false]
  apply Spliced.mk
  case kept =>
    rw [append_assoc]
    exact prefix_append _ _
  case slot =>
    intro h
    cases hslot.symm.trans h
  case custom =>
    intro hcustom
    cases path with
    | none => cases hcustom
    | some path =>
      refine ⟨hslot, start ++ lead, path, isFallback, [],
        (Element.setters options name attributes index).map .code, prefix_append _ _, rfl, ?_⟩
      rw [elementOpening, Element.creation, map_append, ← append_assoc, ← append_assoc,
        append_assoc (start ++ lead)]
      rfl

theorem finished_slotOpening (options : Options) (attributes : AttributeMap) (index : Int) :
    Finished (slotOpening options attributes index) :=
  (finished_code [_]).append Draft.finished_slot

theorem Anchored.opens (h : Anchored options w.draft saved) (haccepted : Accepted w name frame)
    (hopens : Opens options (w.draft.modifyTop entered) { frame with attributes } w v) :
    v.draft.frames.length = w.draft.frames.length + 1 ∧
      Anchored options v.draft (w.draft.buffer :: saved) := by
  have hentered : Anchored options (w.draft.modifyTop entered) saved := h.modifyTop fun _ => rfl
  have hbuffer : (w.draft.modifyTop entered).buffer = w.draft.buffer :=
    buffer_modifyTop (fun _ _ => rfl) _
  have hlength : (w.draft.modifyTop entered).frames.length = w.draft.frames.length :=
    length_modifyTop _ _
  have hown := haccepted.own
  have hplain : frame.placed = false := by
    obtain ⟨_, _, rfl⟩ := haccepted.eq_new
    rfl
  generalize w.draft.modifyTop entered = d at hopens hentered hbuffer hlength
  rw [← hbuffer, ← hlength]
  -- a view writes into the buffer of the tag around it
  have hview {view shown : Frame} {c : Walk} {b : List Fragment}
      (hcore : core v = inTag c (d.modifyTop (recordChild view)) shown b) (hkind : shown.kind = .view)
      (hignored : shown.ignored = false) (hown : shown.own = none)
      (hspliced : Spliced options shown d.buffer b) (hfinished : Finished b) :
      v.draft.frames.length = d.frames.length + 1 ∧
        Anchored options v.draft (d.buffer :: saved) := by
    have hrecord : Anchored options (d.modifyTop (recordChild view)) saved :=
      hentered.modifyTop (anchor_recordChild view)
    have hsame : (d.modifyTop (recordChild view)).buffer = d.buffer :=
      buffer_modifyTop (recordChild_aside view) d
    rw [draft_of_inTag hcore, ← hsame]
    refine ⟨?_, hrecord.pushView hkind hignored hown (hsame ▸ hspliced) hfinished⟩
    rw [length_setBuffer, frames_push, length_cons, length_modifyTop]
  cases hopens with
  | refused hcore =>
    rw [draft_of_core hcore]
    exact ⟨rfl, hentered.push (fun _ => rfl) hown hplain⟩
  | property hkind hcore =>
    rw [draft_of_core hcore]
    exact ⟨rfl, hentered.push (fun hview => nomatch hkind.symm.trans hview) hown hplain⟩
  | @factory shape hshape hcore =>
    rw [draft_of_withDraft hcore]
    refine ⟨?_, .part rfl (fun hview => ?_) hown ?_ ⟨shape, ?_⟩ finished_nil⟩
    · rw [frames_push, length_cons, length_setBuffer]
    · exact absurd hview (kind_ne_view_of_shape hshape)
    · rw [setBuffer_setBuffer, setBuffer_buffer]
      exact hentered
    · rw [buffer_setBuffer]
  | slotContent hkind hcore =>
    have hheld : Anchored options (d.modifyTop holding) saved := hentered.modifyTop fun _ => rfl
    have hsame : (d.modifyTop holding).buffer = d.buffer :=
      buffer_modifyTop (fun _ _ => rfl) d
    rw [draft_of_withDraft hcore, ← hsame]
    refine ⟨?_, hheld.push (fun hview => nomatch hkind.symm.trans hview) hown hplain⟩
    rw [frames_push, length_cons, length_modifyTop]
  | slot _ hcore =>
    refine hview hcore rfl rfl rfl (spliced_slot _ _ _ _ _) ?_
    exact (hentered.finished.append (finished_code _)).append (finished_slotOpening _ _ _)
  | element _ hname path _ hcore =>
    refine hview hcore rfl rfl rfl (spliced_element _ _ hname _ _ _ _ _) ?_
    refine (hentered.finished.append (finished_code _)).append ?_
    exact (finished_code _).append (finished_code _)

theorem Anchored.starts (h : Anchored options w.draft saved)
    (hs : Starts options name attributes w v) :
    Anchored options v.draft (startsAt saved w v (.openTag name)) := by
  unfold startsAt
  cases hs with
  | outside hcore =>
    rw [show v.draft = w.draft from (congrArg draft hcore :), if_neg (Nat.lt_irrefl _)]
    exact h
  | skipped hcore =>
    have hopening : Anchored options (w.draft.modifyTop opening) saved := h.modifyTop fun _ => rfl
    have hsame : (w.draft.modifyTop opening).buffer = w.draft.buffer :=
      buffer_modifyTop (fun _ _ => rfl) _
    have hlength : w.draft.frames.length < v.draft.frames.length := by
      rw [draft_of_withDraft hcore, frames_push, length_cons, length_modifyTop]
      exact Nat.lt_succ_self _
    rw [if_pos hlength, draft_of_withDraft hcore, ← hsame]
    exact hopening.push (fun _ => rfl) rfl rfl
  | accepted _ haccepted hopens =>
    obtain ⟨hlength, hopened⟩ := h.opens haccepted hopens
    rw [if_pos (hlength ▸ Nat.lt_succ_self _)]
    exact hopened

/-! ### The end of a tag -/

theorem Anchored.of_view (h : Anchored options (d.push frame) saved) (hkind : frame.kind = .view)
    (hignored : frame.ignored = false) : frame.own = none ∧ ∃ start rest, saved = start :: rest ∧
      Anchored options (d.setBuffer start) rest ∧ Spliced options frame start d.buffer ∧
      Finished d.buffer := by
  cases h with
  | view hdraft _ _ hown hbelow hspliced hfinished =>
    obtain ⟨rfl, rfl⟩ := push_inj hdraft
    rw [buffer_setBuffer]
    exact ⟨hown, _, _, rfl, (setBuffer_setBuffer ..).symm ▸ hbelow, hspliced, hfinished⟩
  | part hdraft hpart =>
    obtain ⟨rfl, rfl⟩ := push_inj hdraft
    cases (hpart hkind).symm.trans hignored

theorem Anchored.of_part (h : Anchored options (d.push frame) saved)
    (hkind : frame.kind = .view → frame.ignored = true) : ∃ start rest, saved = start :: rest ∧
      Anchored options (d.setBuffer start) rest ∧ (∀ own, frame.own = some own → Finished own) ∧
      if frame.placed then ∃ shape, d.buffer = start ++ [.factory shape] else d.buffer = start := by
  cases h with
  | view hdraft hview hignored =>
    obtain ⟨rfl, rfl⟩ := push_inj hdraft
    cases (hkind hview).symm.trans hignored
  | part hdraft _ hown hbelow hstart hfinished =>
    obtain ⟨rfl, rfl⟩ := push_inj hdraft
    refine ⟨_, _, rfl, hbelow, fun own h => ?_, hstart⟩
    cases hown.symm.trans h
    exact hfinished

/-- The tag on top has gone, and code stands after what there was before it. -/
theorem Anchored.shut (h : Anchored options (d.setBuffer start) saved) (hb : start <+: b)
    (hfinished : Finished b) : Anchored options ((d.modifyTop shut).setBuffer b) saved := by
  have hextend := h.extend ((buffer_setBuffer d start).symm ▸ hb) hfinished
  rw [setBuffer_setBuffer] at hextend
  have hshut : Anchored options ((d.setBuffer b).modifyTop Walk.shut) saved :=
    hextend.modifyTop fun _ => rfl
  rwa [Draft.modifyTop_setBuffer (fun _ _ => rfl)] at hshut

section

variable (h : Spliced options frame start b) (hcustom : frame.isCustom = true)
include h hcustom

/-- **Slot content is put in before what builds its element.** -/
theorem Spliced.insertAt_eq :
    ∃ before path isFallback given rest, start <+: before ∧ frame.splice = before.length + 1 ∧
      b = before ++ customCode options frame path isFallback given ++ rest ∧
      ∀ content, Buffer.insertAt b frame.splice content =
        before ++ customCode options frame path isFallback (content ++ given) ++ rest := by
  obtain ⟨_, before, path, isFallback, given, rest, hstart, hsplice, rfl⟩ := h.custom hcustom
  refine ⟨before, path, isFallback, given, rest, hstart, hsplice, rfl, fun content => ?_⟩
  have hplace : Buffer.place
      (before ++ customCode options frame path isFallback given ++ rest).length frame.splice =
        before.length + 1 := by
    rw [hsplice]
    show min (before.length + 1) _ = _
    rw [length_append, length_append, customCode, length_cons]
    omega
  unfold Buffer.insertAt
  dsimp only
  rw [hplace, append_assoc before, take_length_add_append, drop_length_add_append]
  simp [customCode]

theorem Spliced.insert : Spliced options frame start (Buffer.insertAt b frame.splice content) := by
  obtain ⟨before, path, isFallback, given, rest, hstart, hsplice, _, hinsert⟩ :=
    h.insertAt_eq hcustom
  have hslot := (h.custom hcustom).1
  rw [hinsert]
  apply Spliced.mk
  case kept =>
    rw [append_assoc]
    exact hstart.trans (prefix_append _ _)
  case slot =>
    intro h
    cases hslot.symm.trans h
  case custom =>
    intro _
    exact ⟨hslot, before, path, isFallback, content ++ given, rest, hstart, hsplice, rfl⟩

end

/-- A slot is closed.  What stands before its splice point is its branch. -/
theorem Spliced.hasBranch (h : Spliced options frame start b) (hslot : frame.isSlot = true) :
    hasBranch options.settings frame b = true := by
  obtain ⟨before, inside, name, hname, _, hsplice, rfl⟩ := h.slot hslot
  exact hasBranch_slot hname hsplice

theorem Spliced.slotClosed (h : Spliced options frame start b) (hslot : frame.isSlot = true)
    (hfinished : Finished b) : start <+: slotClosed options.settings frame b ∧
      Finished (slotClosed options.settings frame b) := by
  obtain ⟨before, inside, name, hname, hstart, hsplice, rfl⟩ := h.slot hslot
  rw [slotClosed_slot hname before inside hsplice]
  refine ⟨hstart.trans (prefix_append _ _), ?_⟩
  refine (hfinished.of_subset (subset_append_left _ _)).append ?_
  unfold slotEnding
  split
  · exact Draft.finished_slot
  · exact finished_code [_]

theorem finished_insertAt (hb : Finished b) (hcontent : Finished content)
    {index : Int} : Finished (Buffer.insertAt b index content) :=
  ((hb.of_subset (take_subset _ _)).append hcontent).append
    (hb.of_subset (drop_subset _ _))

/-- Slot content is given to the custom element on top. -/
theorem Anchored.insert (h : Anchored options (d.push frame) saved) (hkind : frame.kind = .view)
    (hignored : frame.ignored = false) (hcustom : frame.isCustom = true)
    (hcontent : Finished content) : Anchored options ((d.push frame).setBuffer
      (Buffer.insertAt (d.push frame).buffer frame.splice content)) saved := by
  obtain ⟨hown, start, rest, rfl, hbelow, hspliced, hfinished⟩ := h.of_view hkind hignored
  rw [setBuffer_push hown, buffer_push hown]
  exact .view rfl hkind hignored hown hbelow (hspliced.insert hcustom)
    (finished_insertAt hfinished hcontent)

/-- Slot content stands in a custom element. -/
theorem Nested.slotContent (h : Nested (d.push frame).frames) (hignored : frame.ignored = false)
    (hkind : frame.kind = .slotContent) : ∃ below parent, d = Draft.push below parent ∧
      parent.kind = .view ∧ parent.ignored = false ∧ parent.isCustom = true := by
  cases h.1 with
  | ignored hyes => cases hignored.symm.trans hyes
  | view _ hview => cases hkind.symm.trans hview
  | @inner p _ _ _ _ _ _ hparent hkept hcontent =>
    rcases d.eq_push_or_frames_nil with hnil | ⟨parent, below, rfl⟩
    · rw [hnil] at hparent
      cases hparent
    · cases hparent
      obtain ⟨hview, hcustom⟩ := hcontent hkind
      exact ⟨below, p, rfl, hview, hkept, hcustom⟩

theorem Anchored.leaves (h : Anchored options (d.push frame) saved) (hignored : frame.ignored = false)
    (hnested : Nested (d.push frame).frames) (hleaves : Leaves options d frame w v) :
    Anchored options v.draft saved.tail ∧ v.draft.frames.length = d.frames.length := by
  -- whatever is written, it comes after what stood in the buffer below
  have hwritten {start b : List Fragment} {rest : List (List Fragment)} (hsaved : saved = start :: rest)
      (hbelow : Anchored options (d.setBuffer start) rest) {c : Walk} (hcore : core v = ended c d b)
      (hb : start <+: b) (hfinished : Finished b) :
      Anchored options v.draft saved.tail ∧ v.draft.frames.length = d.frames.length := by
    rw [draft_of_ended hcore, hsaved]
    refine ⟨hbelow.shut hb hfinished, ?_⟩
    rw [length_setBuffer, length_modifyTop]
  have hinner (hother : frame.kind ≠ .view) := h.of_part fun hview => absurd hview hother
  cases hleaves with
  | element hkind _ _ _ hcore =>
    obtain ⟨_, start, rest, hsaved, hbelow, hspliced, hfinished⟩ := h.of_view hkind hignored
    exact hwritten hsaved hbelow hcore (hspliced.kept.trans (prefix_append _ _))
      (hfinished.append (finished_code _))
  | mixed hkind _ _ hcore =>
    obtain ⟨_, start, rest, hsaved, hbelow, hspliced, hfinished⟩ := h.of_view hkind hignored
    exact hwritten hsaved hbelow hcore hspliced.kept hfinished
  | slot hslot _ hcore =>
    obtain ⟨_, start, rest, hsaved, hbelow, hspliced, hfinished⟩ :=
      h.of_view (kind_of_isSlot hslot) hignored
    obtain ⟨hstart, hclosed⟩ := hspliced.slotClosed hslot hfinished
    exact hwritten hsaved hbelow hcore hstart hclosed
  | property hkind hown hplaced hcore =>
    obtain ⟨start, rest, hsaved, hbelow, hfinished, hstart⟩ := hinner (by rw [hkind]; exact nofun)
    rw [hplaced, if_neg Bool.false_ne_true] at hstart
    have hbuffer := hbelow.finished
    rw [buffer_setBuffer] at hbuffer
    refine hwritten hsaved hbelow hcore (hstart ▸ prefix_append _ _) ?_
    exact (hstart ▸ hbuffer).append ((hfinished _ hown).append (finished_code _))
  | factory hshape hown hplaced hcore =>
    obtain ⟨start, rest, hsaved, hbelow, _, hstart⟩ := hinner (kind_ne_view_of_shape hshape)
    rw [hplaced, if_pos rfl] at hstart
    obtain ⟨shape, hstart⟩ := hstart
    have hbuffer := hbelow.finished
    rw [buffer_setBuffer] at hbuffer
    rw [hstart, map_append, hbuffer.fill] at hcore
    exact hwritten hsaved hbelow hcore (prefix_append _ _)
      (hbuffer.append (finished_code [_]))
  | @slotContent parent own hkind hparent hown hplaced hcore =>
    obtain ⟨start, rest, hsaved, hbelow, hfinished, hstart⟩ := hinner (by rw [hkind]; exact nofun)
    rw [hplaced, if_neg Bool.false_ne_true] at hstart
    rw [← hstart, setBuffer_buffer] at hbelow
    obtain ⟨below, element, rfl, hview, hkept, hcustom⟩ := hnested.slotContent hignored hkind
    cases hparent
    have hinsert := hbelow.insert hview hkept hcustom
      ((hfinished _ hown).append (finished_code
        (Construction.slotAssignments options.settings frame)))
    have hshut : Anchored options (((below.push parent).setBuffer _).modifyTop Walk.shut) rest :=
      hinsert.modifyTop fun _ => rfl
    rw [Draft.modifyTop_setBuffer fun _ _ => rfl] at hshut
    rw [draft_of_core hcore, hsaved]
    exact ⟨hshut, (length_setBuffer _ _).trans (length_modifyTop _ _)⟩

theorem Anchored.ends (h : Anchored options w.draft saved) (hnested : Nested w.draft.frames)
    (he : Ends options name w v) :
    Anchored options v.draft (startsAt saved w v (.closeTag name)) := by
  unfold startsAt
  dsimp only
  cases he with
  | outside hcore | bare hcore =>
    rw [show v.draft = w.draft from (congrArg draft hcore :), if_neg (Nat.lt_irrefl _)]
    exact h
  | unmatched hcore =>
    rw [draft_of_withDraft hcore, length_modifyTop, if_neg (Nat.lt_irrefl _)]
    exact h.modifyTop fun _ => rfl
  | @dropped d frame hdraft hignored hcore =>
    have hplaced := (hnested.shaped d frame hdraft).ignored hignored
    rw [hdraft] at h
    obtain ⟨start, rest, hsaved, hbelow, _, hstart⟩ := h.of_part fun _ => hignored
    rw [hplaced, if_neg Bool.false_ne_true] at hstart
    rw [← hstart, setBuffer_buffer] at hbelow
    rw [draft_of_withDraft hcore, hdraft, length_modifyTop, frames_push, length_cons,
      if_pos (Nat.lt_succ_self _), hsaved]
    exact hbelow.modifyTop fun _ => rfl
  | @left d frame hdraft hignored hleaves =>
    rw [hdraft] at h hnested
    obtain ⟨hleft, hlength⟩ := h.leaves hignored hnested hleaves
    rw [hlength, hdraft, frames_push, length_cons, if_pos (Nat.lt_succ_self _)]
    exact hleft

/-! ### Open slots -/

/-- Whether a slot is open that has not been left out. -/
def isOpenSlot (frame : Frame) : Bool :=
  frame.isSlot && !frame.ignored

theorem countP_modifyTop {change : Frame → Frame}
    (hchange : ∀ frame, isOpenSlot (change frame) = isOpenSlot frame) (d : Draft) :
    (d.modifyTop change).frames.countP isOpenSlot = d.frames.countP isOpenSlot := by
  have hmap := Draft.map_modifyTop hchange d
  have hcount := congrArg (countP id) hmap
  rwa [countP_map, countP_map] at hcount

theorem countP_setBuffer (d : Draft) (b : List Fragment) :
    (d.setBuffer b).frames.countP isOpenSlot = d.frames.countP isOpenSlot := by
  have hmap := @Draft.map_setBuffer _ isOpenSlot (fun _ _ => rfl) d b
  have hcount := congrArg (countP id) hmap
  rwa [countP_map, countP_map] at hcount

/-- **At most one slot is open**, and the walk knows whether one is. -/
def Marked (w : Walk) : Prop :=
  w.draft.frames.countP isOpenSlot = w.inSlotFallback.toNat

/-- The number of open slots with one more frame. -/
theorem countP_push (d : Draft) (frame : Frame) : (d.push frame).frames.countP isOpenSlot =
    d.frames.countP isOpenSlot + (isOpenSlot frame).toNat := by
  rw [frames_push, countP_cons]
  cases isOpenSlot frame <;> rfl

theorem isOpenSlot_of_kind (hkind : frame.kind ≠ .view) : isOpenSlot frame = false := by
  simp [isOpenSlot, Frame.isSlot, hkind]

theorem isOpenSlot_recordChild (view frame : Frame) :
    isOpenSlot (recordChild view frame) = isOpenSlot frame := by
  unfold recordChild
  dsimp only
  split <;> split <;> rfl

/-- A slot is accepted only where no slot is open. -/
theorem Marked.accepted (h : Marked w) (haccepted : Accepted w Frame.slotTag frame) :
    w.draft.frames.countP isOpenSlot = 0 := by
  cases hframes : w.draft.frames with
  | nil => rfl
  | cons parent below =>
    have hnone := nesting_slot (haccepted.nesting parent (by rw [hframes]; rfl))
    rw [Marked, hnone, hframes] at h
    exact h

theorem Marked.of_core (hcore : core v = u) (h : Marked u) : Marked v :=
  (congrArg Marked hcore).mpr h

theorem Marked.starts (h : Marked w) (hs : Starts options name attributes w v) : Marked v := by
  -- a frame that is no open slot is put on top
  have hpush {d : Draft} {frame : Frame}
      (hd : d.frames.countP isOpenSlot = w.draft.frames.countP isOpenSlot)
      (hframe : isOpenSlot frame = false) : Marked ((core w).withDraft (d.push frame)) := by
    refine Eq.trans ?_ h
    rw [show ((core w).withDraft (d.push frame)).draft = d.push frame from rfl, countP_push, hd, hframe]
    rfl
  have hentered : (w.draft.modifyTop entered).frames.countP isOpenSlot =
      w.draft.frames.countP isOpenSlot := @countP_modifyTop entered (fun _ => rfl) _
  cases hs with
  | outside hcore => exact .of_core hcore h
  | skipped hcore => exact .of_core hcore (hpush (@countP_modifyTop opening (fun _ => rfl) _) rfl)
  | @accepted frame _ haccepted hopens =>
    cases hopens with
    | refused hcore => exact .of_core hcore (hpush hentered (Bool.and_false _))
    | property hkind hcore =>
      refine .of_core hcore (hpush hentered (isOpenSlot_of_kind ?_))
      rw [hkind]
      exact nofun
    | factory hshape hcore =>
      exact .of_core hcore (hpush ((countP_setBuffer _ _).trans hentered)
        (isOpenSlot_of_kind (kind_ne_view_of_shape hshape)))
    | slotContent hkind hcore =>
      have hheld := @countP_modifyTop holding (fun _ => rfl) (w.draft.modifyTop entered)
      refine .of_core hcore (hpush (hheld.trans hentered) (isOpenSlot_of_kind ?_))
      rw [hkind]
      exact nofun
    | @slot received hframe hcore =>
      have hname : name = Frame.slotTag := (haccepted.eq_view hframe).2.1
      subst hname
      have hnone := h.accepted haccepted
      rw [Marked, draft_of_inTag hcore, show v.inSlotFallback = true from (congrArg inSlotFallback hcore :),
        countP_setBuffer, countP_push, countP_modifyTop (isOpenSlot_recordChild _), hentered, hnone]
      rfl
    | element hframe hname path _ hcore =>
      refine .of_core hcore ((countP_setBuffer _ _).trans
        (hpush ((countP_modifyTop (isOpenSlot_recordChild _) _).trans hentered) ?_))
      simp [isOpenSlot, Frame.isSlot, elementFrame, viewFrame, Frame.new, hname]

theorem Marked.ends (h : Marked w) (he : Ends options name w v) : Marked v := by
  have hshut (d : Draft) : (d.modifyTop shut).frames.countP isOpenSlot = d.frames.countP isOpenSlot :=
    @countP_modifyTop shut (fun _ => rfl) d
  cases he with
  | outside hcore | bare hcore => exact .of_core hcore h
  | unmatched hcore => exact .of_core hcore ((hshut w.draft).trans h)
  | @dropped d frame hdraft hignored hcore =>
    refine .of_core hcore ((hshut d).trans ?_)
    rwa [Marked, hdraft, countP_push, isOpenSlot, hignored, Bool.not_true, Bool.and_false] at h
  | @left d frame hdraft hignored hleaves =>
    obtain ⟨b, hv⟩ := hleaves.draft_eq
    have hbound := Bool.toNat_le w.inSlotFallback
    rw [Marked, hdraft, countP_push, isOpenSlot, hignored, Bool.not_false, Bool.and_true] at h
    rw [Marked, hv, countP_setBuffer, hshut, hleaves.inSlotFallback_eq]
    cases hslot : frame.isSlot with
    | true =>
      rw [hslot, Bool.toNat_true] at h
      rw [Bool.not_true, Bool.and_false, Bool.toNat_false]
      omega
    | false =>
      rw [hslot] at h
      rwa [Bool.not_false, Bool.and_true]

/-! ### Runs -/

theorem startsAlong_append {first rest : List TagEvent} (h : events options first w = .ok () v) :
    startsAlong options saved (first ++ rest) w =
      startsAlong options (startsAlong options saved first w) rest v := by
  induction first generalizing saved w with
  | nil =>
    cases h
    rfl
  | cons e first ih =>
    obtain ⟨_, u, hu, hrest⟩ := bind_eq_ok h
    rw [cons_append, startsAlong, startsAlong, hu]
    exact ih hrest

/-- Attributes open and close nothing. -/
theorem startsAlong_attributes (received : AttributeMap) (given : Option AttributeMap) (w : Walk) :
    startsAlong options saved (attributeEvents received ++ [.completeTag given]) w = saved := by
  induction received generalizing w with
  | nil =>
    show startsAlong options saved [.completeTag given] w = saved
    unfold startsAlong
    split <;> rfl
  | cons item rest ih =>
    show startsAlong options saved (.setAttribute item.1 item.2 ::
      (attributeEvents rest ++ [.completeTag given])) w = saved
    unfold startsAlong
    split
    · exact ih _
    · rfl

/-- A tag has its frame as soon as it is opened. -/
theorem length_openTag {names : List Text} {received : AttributeMap} {given : Option AttributeMap}
    {t : Walk} (hu : Tracks options ⟨names, false⟩ u) (hopen : openTag options name u = .ok () t)
    (hset : events options (attributeEvents received ++ [.completeTag given]) t = .ok () v) :
    t.draft.frames.length = v.draft.frames.length := by
  have hone : events options [.openTag name] u = .ok () t := (bind_ok hopen).trans rfl
  have ht : Tracks options ⟨name :: names, true⟩ t := hu.of_ok rfl hone
  have hafter : Nesting.after? ⟨name :: names, true⟩
      (attributeEvents received ++ [.completeTag given]) = some ⟨name :: names, false⟩ := by
    rw [Nesting.after?_append, Element.after?_attributeEvents]
    rfl
  have hv := ht.of_ok hafter hset
  have hlength := congrArg length (ht.mirrors.names.trans hv.mirrors.names.symm)
  rwa [length_map, length_map] at hlength

/-- What there is between two tags. -/
structure Steady (options : Options) (channel : Channel) (taken : List TagEvent) (w : Walk) :
    Prop where
  run : events options taken (Walk.start channel) = .ok () w
  anchored : Anchored options w.draft (startsAlong options [] taken (Walk.start channel))
  marked : Marked w
  nested : Nested w.draft.frames

/-- **The run.** -/
theorem steady_of_run {channel : Channel} (hchannel : channel.strict = false)
    {taken : List TagEvent} {n : Nesting} (hn : Nesting.after? .bare taken = some n)
    (hreceives : n.receives = false) (hrun : events options taken (Walk.start channel) = .ok () w) :
    Steady options channel taken w := by
  obtain ⟨names, receives⟩ := n
  cases hreceives
  refine between_induction (motive := Steady options channel) hchannel ?_ ?_ ?_ ?_ hn hrun
  · exact ⟨rfl, .bare finished_nil, rfl, trivial⟩
  · intro before name received given u t v hscoped hu hopen hset hstarts
    have hlength := length_openTag hscoped.tracks hopen hset
    have hrest : events options
        (.openTag name :: (attributeEvents received ++ [.completeTag given])) u = .ok () v :=
      (bind_ok hopen).trans hset
    refine ⟨?_, ?_, hu.marked.starts hstarts, hu.nested.starts hstarts⟩
    · rw [events_append]
      exact (bind_ok hu.run).trans hrest
    · have hanchored := hu.anchored.starts hstarts
      rw [startsAlong_append hu.run, startsAlong, show event options (.openTag name) u = _ from hopen]
      dsimp only
      rw [startsAlong_attributes]
      unfold startsAt at hanchored ⊢
      rw [hlength]
      exact hanchored
  · intro before name u v hscoped hu hclose hends
    refine ⟨?_, ?_, hu.marked.ends hends, hu.nested.ends hends⟩
    · rw [events_append]
      exact (bind_ok hu.run).trans ((bind_ok hclose).trans rfl)
    · rw [startsAlong_append hu.run, startsAlong, show event options (.closeTag name) u = _ from hclose]
      exact hu.anchored.ends hu.nested hends
  · intro before u v hscoped hu hfinish
    have hcomposed : Composed (fun w => (w.draft, w.inSlotFallback)) false finish := by
      refine .read (fun _ _ => rfl) fun w => ?_
      split
      · exact .pure _
      · exact .report _
    have hkept := hcomposed.keeps_ok (fun _ _ => rfl) hfinish
    have hdraft : v.draft = u.draft := congrArg Prod.fst hkept
    have hmark : v.inSlotFallback = u.inSlotFallback := congrArg Prod.snd hkept
    apply Steady.mk
    case run =>
      rw [events_append]
      exact (bind_ok hu.run).trans ((bind_ok hfinish).trans rfl)
    case anchored =>
      rw [startsAlong_append hu.run, startsAlong, show event options .finish u = _ from hfinish, hdraft]
      exact hu.anchored
    case marked =>
      rw [Marked, hdraft, hmark]
      exact hu.marked
    case nested =>
      rw [hdraft]
      exact hu.nested

/-! ### What follows -/

/-- A slot on top can be closed: its branch is found. -/
theorem Anchored.closeSlot_ok (h : Anchored options w.draft saved) (hdraft : w.draft = d.push frame)
    (hopen : isOpenSlot frame = true) : ∃ v, closeSlot options frame w = .ok () v := by
  rw [isOpenSlot, Bool.and_eq_true, Bool.not_eq_true'] at hopen
  rw [hdraft] at h
  obtain ⟨hown, start, rest, _, _, hspliced, _⟩ := h.of_view (kind_of_isSlot hopen.1) hopen.2
  have hbranch : Walk.hasBranch options.settings frame w.draft.buffer = true := by
    rw [hdraft, buffer_push hown]
    exact hspliced.hasBranch hopen.1
  unfold closeSlot
  rw [bind_ok run_modify, get_bind]
  split
  · exact ⟨_, rfl⟩
  · exact ⟨_, rfl⟩

/-- Slot content on top is closed. -/
theorem Anchored.closeSlotContent (h : Anchored options w.draft saved)
    (hnested : Nested w.draft.frames) (hreceiver : w.receiver = .nobody) (hdraft : w.draft = d.push frame)
    (hkind : frame.kind = .slotContent) (hignored : frame.ignored = false)
    {own : List Fragment} (hown : frame.own = some own) :
    ∃ element before path isFallback given rest, d.frames.head? = some element ∧
      d.buffer = before ++ customCode options element path isFallback given ++ rest ∧
      ∀ name v, Framed name w → Closes name frame → closeTag options name w = .ok () v →
        v.draft.buffer = before ++ customCode options element path isFallback
          (own ++ (Construction.slotAssignments options.settings frame).map .code ++ given) ++ rest := by
  have hshaped := hnested.shaped
  have hplaced : frame.placed = false := by
    rw [((hshaped d frame hdraft).inner hignored (by rw [hkind]; exact nofun)).2.1, hkind]
    rfl
  rw [hdraft] at h hnested
  obtain ⟨below, element, rfl, hview, hkept, hcustom⟩ := hnested.slotContent hignored hkind
  obtain ⟨start, rest, _, hbelow, _, hstart⟩ := h.of_part (by rw [hkind]; exact nofun)
  rw [hplaced, if_neg Bool.false_ne_true] at hstart
  rw [← hstart, setBuffer_buffer] at hbelow
  obtain ⟨hnone, start', _, _, _, hspliced, _⟩ := hbelow.of_view hview hkept
  obtain ⟨before, path, isFallback, given, rest, _, _, hbuffer, hinsert⟩ := hspliced.insertAt_eq hcustom
  refine ⟨element, before, path, isFallback, given, rest, rfl,
    (buffer_push hnone).trans hbuffer, fun name v hframed hcloses hclose => ?_⟩
  rcases (closeTag_ends hreceiver hshaped hclose).closed hdraft hframed.name hframed.suppressed
    hcloses with ⟨hleft, _⟩ | ⟨_, hleaves⟩
  · cases hignored.symm.trans hleft
  · cases hleaves with
    | slotContent _ hparent hown' _ hcore =>
      cases hparent
      cases hown.symm.trans hown'
      rw [draft_of_ended hcore, buffer_setBuffer, buffer_push hnone, hinsert]
    | element hkind' | mixed hkind' | property hkind' => cases hkind.symm.trans hkind'
    | slot hslot => simp [Frame.isSlot, hkind] at hslot
    | factory hshape => simp [factoryShape?, hkind] at hshape

/-- **Splice points are valid between two tags.**  Given are the events that have been taken. -/
structure Spliceable (options : Options) (channel : Channel) (taken : List TagEvent) (w : Walk) :
    Prop where
  /-- The walk knows whether a slot is open. -/
  inSlotFallback : w.inSlotFallback = true ↔ ∃ frame ∈ w.draft.frames, isOpenSlot frame = true
  single : w.draft.frames.countP isOpenSlot ≤ 1
  /-- The splice point of every open view is right, and what stood in its buffer before it was opened
  stands there still. -/
  views : ∀ above frame below, w.draft.frames = above ++ frame :: below → isOpenView frame = true →
    ∃ start, (startsAlong options [] taken (Walk.start channel))[above.length]? = some start ∧
      Spliced options frame start (bufferOf w.draft.body (frame :: below))
  /-- A slot on top can be closed. -/
  closes : ∀ d frame, w.draft = Draft.push d frame → isOpenSlot frame = true →
    ∃ v, closeSlot options frame w = .ok () v
  /-- Slot content on top will be put in before what builds its element. -/
  gives : ∀ d frame own, w.draft = Draft.push d frame → frame.kind = .slotContent →
    frame.ignored = false → frame.own = some own →
    ∃ element before path isFallback given rest, d.frames.head? = some element ∧
      d.buffer = before ++ customCode options element path isFallback given ++ rest ∧
      ∀ name v, Framed name w → Closes name frame → closeTag options name w = .ok () v →
        v.draft.buffer = before ++ customCode options element path isFallback
          (own ++ (Construction.slotAssignments options.settings frame).map .code ++ given) ++ rest

/-- **Slot scope and splice points stay valid.**  A walk in lenient mode has taken some events of a
well-nested stream, and stands between two tags. -/
theorem events_splices (options : Options) {channel : Channel} (hchannel : channel.strict = false)
    {taken : List TagEvent} {n : Nesting} (hn : Nesting.after? .bare taken = some n)
    (hreceives : n.receives = false) {w : Walk}
    (hrun : events options taken (Walk.start channel) = .ok () w) :
    Spliceable options channel taken w := by
  have hsteady := steady_of_run hchannel hn hreceives hrun
  have htracks := (tracks_start hchannel).of_ok hn hrun
  have hmarked : w.draft.frames.countP isOpenSlot = w.inSlotFallback.toNat := hsteady.marked
  apply Spliceable.mk
  case inSlotFallback =>
    rw [← countP_pos_iff, hmarked]
    cases w.inSlotFallback <;> decide
  case single =>
    rw [hmarked]
    exact Bool.toNat_le _
  case views =>
    have hviews := hsteady.anchored.spliced w.draft.buffer (prefix_refl _)
    rw [setBuffer_buffer] at hviews
    exact hviews
  case closes =>
    intro d frame hdraft hopen
    exact hsteady.anchored.closeSlot_ok hdraft hopen
  case gives =>
    intro d frame own hdraft hkind hignored hown
    exact hsteady.anchored.closeSlotContent hsteady.nested
      (htracks.settled hreceives) hdraft hkind hignored hown

/-- A page with a card that is given a label and a slot, which falls back on another label. -/
def slottedCard : List Element :=
  [.mk "Page" [("xmlns:c", "cards")]
    [.mk "c:Card" [] [.mk "slotContent" []
      [.mk "Label" [] [], .mk "slot" [("name", "footer")] [.mk "Label" [] []]]]]]

theorem events_splices_slottedCard :
    ∃ w, events (.standard .standard) ((eventsOf slottedCard).take 15)
        (Walk.start (.empty false .unknown)) = .ok () w ∧
      w.draft.frames.countP isOpenSlot = 1 ∧ w.inSlotFallback = true ∧
      Spliceable (.standard .standard) (.empty false .unknown)
        ((eventsOf slottedCard).take 15) w := by
  have hok : succeeds (events (.standard .standard) ((eventsOf slottedCard).take 15)
      (Walk.start (.empty false .unknown))) = true := by
    decide +kernel
  have hn : Nesting.after? .bare ((eventsOf slottedCard).take 15) =
      some ⟨["Label", "slot", "slotContent", "c:Card", "Page"], false⟩ := by
    decide +kernel
  refine ⟨_, eq_ok_of_succeeds hok, by decide +kernel, by decide +kernel, ?_⟩
  exact events_splices (.standard .standard) rfl hn rfl (eq_ok_of_succeeds hok)

end Walk

end ViewMarkup
