import ViewMarkup.Proofs.Walk.Composed

/-!
# Element trees and the events they are read as

A well-nested document is a forest of elements.  Reading an element gives the event that opens its
tag, one event for each attribute, the event that completes the tag with all its attributes, the
events of the elements inside, and the event that closes the tag.

* `Element.events` and `Element.eventsOf` are these events.
* `Walk.events` takes events one after the other, and `events_append` cuts a run in two.
* `events_element` writes out the run over one element: `startTag`, what is inside, `closeTag`.
-/

namespace ViewMarkup

/-- A tag with its attributes and the elements inside. -/
inductive Element where
  | mk (name : Text) (attributes : AttributeMap) (children : List Element)

namespace Element

/-- The events for the attributes of a tag. -/
def attributeEvents (attributes : AttributeMap) : List TagEvent :=
  attributes.map fun (name, value) => .setAttribute name value

mutual

/-- The events that an element is read as. -/
def events : Element → List TagEvent
  | mk name attributes children =>
    .openTag name :: (attributeEvents attributes ++
      .completeTag (some attributes) :: (eventsOf children ++ [.closeTag name]))

/-- The events that elements are read as, one element after the other. -/
def eventsOf : List Element → List TagEvent
  | [] => []
  | element :: rest => element.events ++ eventsOf rest

end

end Element

namespace Walk

variable {rest : List TagEvent} {attributes : AttributeMap}

/-- Takes events one after the other. -/
def events (options : Options) : List TagEvent → Step Unit
  | [] => return
  | event :: rest => do
    Walk.event options event
    events options rest

variable {options : Options}

theorem events_cons (event : TagEvent) :
    events options (event :: rest) = (do Walk.event options event; events options rest) := rfl

/-- A run over events goes over a first part and then over the rest. -/
theorem events_append (first rest : List TagEvent) :
    events options (first ++ rest) = (do events options first; events options rest) := by
  induction first with
  | nil => rfl
  | cons event first ih =>
    rw [List.cons_append, events_cons, events_cons, ih, bind_assoc]

theorem events_composed (options : Options) (events' : List TagEvent) :
    Composed (fun _ => ()) false (events options events') := by
  induction events' with
  | nil => exact .pure _
  | cons event rest ih => exact .bind (event_composed options event) fun _ => ih

/-- The start of a tag: its name, some attributes one by one, and what completes it. -/
def beginTag (options : Options) (name : Text) (received : AttributeMap)
    (given : Option AttributeMap) : Step Unit := do
  openTag options name
  events options (Element.attributeEvents received)
  completeTag options given

/-- The start of a tag: its name, its attributes one by one, and all of them together. -/
def startTag (options : Options) (name : Text) (attributes : AttributeMap) : Step Unit := do
  openTag options name
  events options (Element.attributeEvents attributes)
  completeTag options (some attributes)

/-- The run over one element: the start of the tag, what is inside, the end of the tag. -/
theorem events_element (name : Text) (children : List Element) :
    events options (Element.mk name attributes children).events = (do
      startTag options name attributes
      events options (Element.eventsOf children)
      closeTag options name) := by
  have hclose : events options [.closeTag name] = closeTag options name := bind_pure _
  rw [Element.events, events_cons, events_append, events_cons, events_append, hclose]
  simp only [startTag, bind_assoc]
  rfl

theorem attributeEvents_composed {γ : Type} {view : Walk → γ} (h : Remote view) :
    Composed view false (events options (Element.attributeEvents attributes)) := by
  induction attributes with
  | nil => exact .pure _
  | cons item rest ih => exact .bind (setAttribute_composed h) fun _ => ih

/-- A tag that is no platform is not counted, and once it is complete no tag receives
attributes. -/
theorem startTag_outline {name : Text} {w v : Walk}
    (hname : Name.isPlatform name = false) (h : startTag options name attributes w = .ok () v) :
    outline v = (true, w.suppressed) := by
  obtain ⟨_, u, hopen, h⟩ := bind_eq_ok h
  obtain ⟨_, t, hset, hcomplete⟩ := bind_eq_ok h
  have hopened := openTag_composed (outline_remote.part Prod.snd) (fun _ _ => rfl) options
    (unseen_of_not_platform hname)
  have hu : u.suppressed = w.suppressed := hopened.keeps_ok (fun _ _ => rfl) hopen
  have ht : outline t = outline u :=
    (attributeEvents_composed outline_remote).keeps_ok outline_deaf hset
  have hv := completeTag_outline options (some attributes) t
  rw [hcomplete, show t.suppressed = u.suppressed from congrArg Prod.snd ht, hu] at hv
  exact hv

end Walk

end ViewMarkup
