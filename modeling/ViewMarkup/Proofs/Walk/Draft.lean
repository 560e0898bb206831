import ViewMarkup.Tag.Frame

/-!
# Drafts and their buffers

The frame on top of a draft writes into a buffer that may lie deep below.  What is done to a draft is
therefore said in two parts: which frames there are, and what is in the buffer of the top.

* `Draft.setBuffer` puts another content into the buffer of the top, and the lemmas on it say how
  it goes with pushing, popping and changing frames.
* `Draft.Finished` says of fragments that none of them is an open factory.
* `Draft.stances` is what closing tags look at: the name of each frame, and whether a tag inside it is
  open.  `Draft.sights` is what building a view leaves as it is of the frames.
-/

namespace ViewMarkup

open List
open Script (Node)

namespace Draft

variable {d : Draft} {frame : Frame} {b : List Fragment} {nodes : List Node}

/-- The draft with another content of the buffer of the top. -/
def setBuffer (d : Draft) (b : List Fragment) : Draft :=
  d.modifyBuffer fun _ => b

/-- The modules declared by the open tags, the innermost first. -/
def scope (d : Draft) : List (Text × Text) :=
  d.frames.flatMap (·.namespaces)

/-! ### A frame on top of a draft -/

theorem buffer_push (h : frame.own = none) : (d.push frame).buffer = d.buffer := by
  show frame.own.getD (bufferOf d.body d.frames) = _
  rw [h]
  rfl

theorem buffer_push_own {own : List Fragment} (h : frame.own = some own) :
    (d.push frame).buffer = own := by
  show frame.own.getD (bufferOf d.body d.frames) = _
  rw [h]
  rfl

theorem modifyBuffer_push (f : List Fragment → List Fragment) (h : frame.own = none) :
    (d.push frame).modifyBuffer f = (d.modifyBuffer f).push frame := by
  show modifyBufferOf f d.body (frame :: d.frames) = _
  rw [modifyBufferOf, h]
  rfl

theorem modifyBuffer_push_own {own : List Fragment} (f : List Fragment → List Fragment)
    (h : frame.own = some own) :
    (d.push frame).modifyBuffer f = d.push { frame with own := some (f own) } := by
  show modifyBufferOf f d.body (frame :: d.frames) = _
  rw [modifyBufferOf, h]
  rfl

theorem push_inj {d' : Draft} {frame' : Frame} (h : d.push frame = d'.push frame') :
    d = d' ∧ frame = frame' := by
  obtain ⟨frames, body⟩ := d
  cases h
  exact ⟨rfl, rfl⟩

@[simp] theorem modifyTop_push (f : Frame → Frame) :
    (d.push frame).modifyTop f = d.push (f frame) := rfl

@[simp] theorem modifyBelow_push (f : Draft → Draft) :
    (d.push frame).modifyBelow f = (f d).push frame := rfl

@[simp] theorem parent?_push : (d.push frame).parent? = d.frames.head? := rfl

@[simp] theorem frames_push : (d.push frame).frames = frame :: d.frames := rfl

theorem pop?_push : (d.push frame).pop? = some (frame,
    if frame.placed then d.modifyBuffer fun b => b.map (Fragment.fill (ownNodes frame)) else d) := rfl

@[simp] theorem scope_push : (d.push frame).scope = frame.namespaces ++ d.scope := by
  simp only [scope, frames_push, flatMap_cons]

/-- A draft is empty, or a frame lies on top of another draft. -/
theorem eq_push_or_frames_nil (d : Draft) :
    d.frames = [] ∨ ∃ frame below, d = (below : Draft).push frame := by
  obtain ⟨frames, body⟩ := d
  cases frames with
  | nil => exact .inl rfl
  | cons frame below => exact .inr ⟨frame, ⟨below, body⟩, rfl⟩

/-- Induction over the frames of a draft. -/
theorem push_induction {motive : Draft → Prop} (bare : ∀ body, motive ⟨[], body⟩)
    (push : ∀ frame below, motive below → motive (below.push frame)) (d : Draft) : motive d := by
  obtain ⟨frames, body⟩ := d
  induction frames with
  | nil => exact bare body
  | cons frame below ih => exact push frame ⟨below, body⟩ ih

/-! ### The buffer of the top -/

theorem modifyBuffer_eq (d : Draft) (f : List Fragment → List Fragment) :
    d.modifyBuffer f = d.setBuffer (f d.buffer) := by
  induction d using push_induction with
  | bare body => rfl
  | push frame below ih =>
    unfold setBuffer
    cases hown : frame.own with
    | none =>
      rw [modifyBuffer_push _ hown, modifyBuffer_push _ hown, buffer_push hown, ih]
      rfl
    | some own =>
      rw [modifyBuffer_push_own _ hown, modifyBuffer_push_own _ hown, buffer_push_own hown]

theorem setBuffer_push (h : frame.own = none) :
    (d.push frame).setBuffer b = (d.setBuffer b).push frame :=
  modifyBuffer_push _ h

theorem setBuffer_push_own (h : frame.own.isSome) :
    (d.push frame).setBuffer b = d.push { frame with own := some b } := by
  obtain ⟨own, hown⟩ := Option.isSome_iff_exists.mp h
  exact modifyBuffer_push_own _ hown

/-- A frame with a buffer of its own keeps it while the draft below changes. -/
theorem modifyBelow_own (h : frame.own.isSome) (g : Draft → Draft) :
    ((d.push frame).setBuffer b).modifyBelow g = ((g d).push frame).setBuffer b := by
  rw [setBuffer_push_own h, setBuffer_push_own h, modifyBelow_push]

@[simp] theorem buffer_setBuffer (d : Draft) (b : List Fragment) : (d.setBuffer b).buffer = b := by
  induction d using push_induction with
  | bare body => rfl
  | push frame below ih =>
    cases hown : frame.own with
    | none => rw [setBuffer_push hown, buffer_push hown, ih]
    | some own =>
      rw [setBuffer_push_own (by rw [hown]; rfl)]
      exact buffer_push_own rfl

@[simp] theorem setBuffer_setBuffer (d : Draft) (b c : List Fragment) :
    (d.setBuffer b).setBuffer c = d.setBuffer c := by
  induction d using push_induction with
  | bare body => rfl
  | push frame below ih =>
    cases hown : frame.own with
    | none => rw [setBuffer_push hown, setBuffer_push hown, setBuffer_push hown, ih]
    | some own =>
      have hsome : frame.own.isSome := by rw [hown]; rfl
      rw [setBuffer_push_own hsome, setBuffer_push_own hsome]
      exact setBuffer_push_own rfl

theorem setBuffer_buffer (d : Draft) : d.setBuffer d.buffer = d := by
  induction d using push_induction with
  | bare body => rfl
  | push frame below ih =>
    cases hown : frame.own with
    | none => rw [setBuffer_push hown, buffer_push hown, ih]
    | some own =>
      rw [setBuffer_push_own (by rw [hown]; rfl), buffer_push_own hown, ← hown]

@[simp] theorem append_eq : d.append nodes = d.setBuffer (d.buffer ++ nodes.map .code) :=
  modifyBuffer_eq d _

/-! ### Changes of the frame on top -/

/-- The change of a frame has nothing to do with its buffer. -/
def Aside (f : Frame → Frame) : Prop :=
  ∀ (frame : Frame) own, f { frame with own } = { f frame with own }

theorem Aside.own {f : Frame → Frame} (hf : Aside f) : (f frame).own = frame.own := by
  have h : f frame = { f frame with own := frame.own } := hf frame frame.own
  exact (congrArg Frame.own h :)

variable {f : Frame → Frame}

theorem buffer_modifyTop (hf : Aside f) (d : Draft) : (d.modifyTop f).buffer = d.buffer := by
  rcases d.eq_push_or_frames_nil with hnil | ⟨frame, below, rfl⟩
  · rw [modifyTop, hnil]
  · rw [modifyTop_push]
    cases hown : frame.own with
    | none => rw [buffer_push hown, buffer_push (hf.own.trans hown)]
    | some own => rw [buffer_push_own hown, buffer_push_own (hf.own.trans hown)]

theorem modifyTop_setBuffer (hf : Aside f) :
    (d.setBuffer b).modifyTop f = (d.modifyTop f).setBuffer b := by
  rcases d.eq_push_or_frames_nil with hnil | ⟨frame, below, rfl⟩
  · obtain ⟨frames, body⟩ := d
    cases hnil
    rfl
  · cases hown : frame.own with
    | none =>
      rw [setBuffer_push hown, modifyTop_push, modifyTop_push,
        setBuffer_push (hf.own.trans hown)]
    | some own =>
      have hsome : frame.own.isSome := by rw [hown]; rfl
      rw [setBuffer_push_own hsome, modifyTop_push, modifyTop_push,
        setBuffer_push_own ((congrArg Option.isSome hf.own).trans hsome), hf]

theorem modifyTop_modifyTop (f g : Frame → Frame) :
    (d.modifyTop f).modifyTop g = d.modifyTop fun frame => g (f frame) := by
  rcases d.eq_push_or_frames_nil with hnil | ⟨frame, below, rfl⟩
  · obtain ⟨frames, body⟩ := d
    cases hnil
    rfl
  · rfl

theorem modifyTop_of_nil (hnil : d.frames = []) : d.modifyTop f = d := by
  rw [modifyTop, hnil]

theorem modifyTop_self (d : Draft) (hf : ∀ frame, f frame = frame) : d.modifyTop f = d := by
  rcases d.eq_push_or_frames_nil with hnil | ⟨frame, below, rfl⟩
  · rw [modifyTop, hnil]
  · rw [modifyTop_push, hf]

theorem head?_modifyTop (d : Draft) (f : Frame → Frame) :
    (d.modifyTop f).frames.head? = d.frames.head?.map f := by
  rcases d.eq_push_or_frames_nil with hnil | ⟨frame, below, rfl⟩
  · rw [modifyTop, hnil]
    rw [hnil]
    rfl
  · rfl

/-! ### What is seen of the frames -/

section Look

variable {β : Type} {look : Frame → β}

theorem map_modifyTop (hf : ∀ frame, look (f frame) = look frame) (d : Draft) :
    (d.modifyTop f).frames.map look = d.frames.map look := by
  rcases d.eq_push_or_frames_nil with hnil | ⟨frame, below, rfl⟩
  · rw [modifyTop_of_nil hnil]
  · exact congrArg (· :: below.frames.map look) (hf frame)

theorem map_modifyTop_eq_modifyHead {g : β → β} (hf : ∀ frame, look (f frame) = g (look frame))
    (d : Draft) : (d.modifyTop f).frames.map look = (d.frames.map look).modifyHead g := by
  rcases d.eq_push_or_frames_nil with hnil | ⟨frame, below, rfl⟩
  · rw [modifyTop_of_nil hnil, hnil]
    rfl
  · exact congrArg (· :: below.frames.map look) (hf frame)

/-- What does not show the buffer of a frame shows no change of a buffer. -/
theorem map_setBuffer (hlook : ∀ frame own, look { frame with own } = look frame) (d : Draft)
    (b : List Fragment) : (d.setBuffer b).frames.map look = d.frames.map look := by
  induction d using push_induction with
  | bare body => rfl
  | push frame below ih =>
    cases hown : frame.own with
    | none =>
      rw [setBuffer_push hown]
      exact congrArg (look frame :: ·) ih
    | some own =>
      rw [setBuffer_push_own (by rw [hown]; rfl)]
      exact congrArg (· :: below.frames.map look) (hlook frame _)

theorem map_modifyBelow {f : Draft → Draft} (hf : ∀ d, (f d).frames.map look = d.frames.map look) : (d.modifyBelow f).frames.map look = d.frames.map look := by
  rcases d.eq_push_or_frames_nil with hnil | ⟨frame, below, rfl⟩
  · have hself : d.modifyBelow f = d := by rw [modifyBelow, hnil]
    rw [hself]
  · exact congrArg (look frame :: ·) (hf below)

end Look

@[simp] theorem scope_setBuffer : (d.setBuffer b).scope = d.scope := by
  rw [scope, scope, flatMap_def, flatMap_def, map_setBuffer fun _ _ => rfl]

theorem scope_modifyTop (hf : ∀ frame, (f frame).namespaces = frame.namespaces) (d : Draft) :
    (d.modifyTop f).scope = d.scope := by
  rw [scope, scope, flatMap_def, flatMap_def, map_modifyTop hf]

theorem isEmpty_setBuffer : (d.setBuffer b).frames.isEmpty = d.frames.isEmpty := by
  have hunits := congrArg isEmpty (@map_setBuffer Unit (fun _ => ()) (fun _ _ => rfl) d b)
  rwa [isEmpty_map, isEmpty_map] at hunits

theorem isEmpty_modifyTop : (d.modifyTop f).frames.isEmpty = d.frames.isEmpty := by
  have hunits := congrArg isEmpty (@map_modifyTop f Unit (fun _ => ()) (fun _ => rfl) d)
  rwa [isEmpty_map, isEmpty_map] at hunits

/-! ### Finished fragments -/

/-- None of the fragments is an open factory. -/
def Finished (b : List Fragment) : Prop :=
  ∀ fragment ∈ b, ∀ shape, fragment ≠ .factory shape

theorem finished_nil : Finished [] :=
  fun _ h => nomatch h

theorem Finished.append {c : List Fragment} (hb : Finished b) (hc : Finished c) :
    Finished (b ++ c) :=
  fun fragment h => (mem_append.mp h).elim (hb fragment) (hc fragment)

theorem finished_code (nodes : List Node) : Finished (nodes.map .code) := by
  intro fragment h shape heq
  obtain ⟨node, _, rfl⟩ := mem_map.mp h
  cases heq

theorem finished_slot {element name : Text} : Finished [.slot element name] := by
  intro fragment h shape
  rw [mem_singleton.mp h]
  exact fun heq => nomatch heq

theorem Finished.of_subset {c : List Fragment} (hb : Finished b) (h : c ⊆ b) : Finished c :=
  fun fragment hc => hb fragment (h hc)

/-- Filling in a body leaves finished fragments as they are. -/
theorem Finished.fill (hb : Finished b) (inner : List Node) : b.map (Fragment.fill inner) = b := by
  have hsame : ∀ fragment ∈ b, Fragment.fill inner fragment = fragment := by
    intro fragment h
    cases fragment with
    | code node => rfl
    | slot element name => rfl
    | factory shape => exact absurd rfl (hb _ h shape)
  exact (map_congr_left hsame).trans (map_id b)

/-- The code of finished fragments. -/
def codeOf (b : List Fragment) : List Node :=
  b.map (Fragment.node [])

@[simp] theorem codeOf_append (b c : List Fragment) : codeOf (b ++ c) = codeOf b ++ codeOf c :=
  map_append

@[simp] theorem codeOf_code : codeOf (nodes.map .code) = nodes := by
  rw [codeOf, map_map]
  exact map_id nodes

end Draft

/-! ### Stances and sights -/

namespace Frame

/-- What decides whether a closing tag closes a frame: its name, and whether a tag inside is open. -/
def stance (frame : Frame) : Text × Bool :=
  (frame.fullName, frame.hasOpenChild)

/-- What is settled when a frame is opened, but for its code and what is declared in it. -/
def sight (frame : Frame) : (Text × Bool) × TagKind × Text × Int × Bool × Nat :=
  (frame.stance, frame.kind, frame.tagName, frame.index, frame.ignored, frame.nestedCount)

end Frame

namespace Draft

variable {f : Frame → Frame} {d : Draft}

theorem length_modifyTop (f : Frame → Frame) (d : Draft) :
    (d.modifyTop f).frames.length = d.frames.length := by
  have hunits := @map_modifyTop f Unit (fun _ => ()) (fun _ => rfl) d
  simpa using congrArg length hunits

theorem length_setBuffer (d : Draft) (b : List Fragment) :
    (d.setBuffer b).frames.length = d.frames.length := by
  have hunits := @map_setBuffer Unit (fun _ => ()) (fun _ _ => rfl) d b
  simpa using congrArg length hunits

def stances (d : Draft) : List (Text × Bool) :=
  d.frames.map Frame.stance

theorem stances_modifyTop (hf : ∀ frame, (f frame).stance = frame.stance) : (d.modifyTop f).stances = d.stances :=
  map_modifyTop hf d

def sights (d : Draft) : List ((Text × Bool) × TagKind × Text × Int × Bool × Nat) :=
  d.frames.map Frame.sight

theorem stances_of_sights {e : Draft} (h : d.sights = e.sights) : d.stances = e.stances := by
  have hfst : ∀ d : Draft, d.stances = d.sights.map Prod.fst := by
    intro d
    rw [sights, map_map]
    rfl
  rw [hfst, hfst, h]

theorem sights_modifyTop (hf : ∀ frame, (f frame).sight = frame.sight)
    (d : Draft) : (d.modifyTop f).sights = d.sights :=
  map_modifyTop hf d

theorem sights_modifyBuffer (d : Draft) (f : List Fragment → List Fragment) :
    (d.modifyBuffer f).sights = d.sights := by
  rw [modifyBuffer_eq]
  exact map_setBuffer (fun _ _ => rfl) d _

theorem sights_modifyBelow {f : Draft → Draft} (hf : ∀ d, (f d).sights = d.sights) (d : Draft) :
    (d.modifyBelow f).sights = d.sights :=
  map_modifyBelow hf

end Draft

end ViewMarkup
