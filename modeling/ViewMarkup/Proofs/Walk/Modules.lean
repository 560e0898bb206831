import ViewMarkup.Proofs.Walk.OpenTags

/-!
# Modules are registered once and found by scope

A view that declares modules registers those that have not been registered before, and a custom
element comes from the module that is in scope under its qualifier.  This holds in both modes and
after every event, also after one that ends the walk.

* `declaredAlong` lists the paths that views declare along a run, as written.
* `Registered` says that a walk has registered these, and `Registered.event` that an event keeps it.
* `Resolves` says what becomes of a view with a qualified name.
* `events_modules` puts the two together.
-/

namespace ViewMarkup.Walk

open List
open Element (eventsOf kindOf modulesOf modulePath?)
open OpenTag (after openTags module?)

variable {options : Options} {name : Text} {attributes : AttributeMap} {frame : Frame}
  {tags : List OpenTag} {declared : List Text} {l : Ledger} {w v : Walk} {path : Option Text}
  {given : Option AttributeMap} {parent : Option Frame} {d : Draft} {n : Nesting} {qualifier : Text}

/-! ### What is declared along a run -/

/-- A view is on top, it may stand where it stands, and its qualifier, if there is one, stands for a
module. -/
def opensView (options : Options) (tags : List OpenTag) (w : Walk) : Bool :=
  match w.receiver, w.draft.frames.head? with
  | .top, some frame => !frame.ignored && frame.kind = .view &&
      (Name.split frame.tagName).2.all fun qualifier => (module? options tags qualifier).isSome
  | _, _ => false

/-- The paths that are declared by an event, given the open tags after it. -/
def declaredAt (options : Options) (w : Walk) : List OpenTag → TagEvent → List Text
  | tag :: outer, .completeTag _ =>
    if opensView options (tag :: outer) w then (declaredModules tag.attributes).map Prod.snd else []
  | _, _ => []

/-- The paths that are declared by events until one of them fails, as written. -/
def declaredAlong (options : Options) : List OpenTag → List TagEvent → Walk → List Text
  | _, [], _ => []
  | tags, e :: rest, w =>
    declaredAt options w (after tags e) e ++
      match event options e w with
      | .ok _ v => declaredAlong options (after tags e) rest v
      | .error _ _ => []

/-! ### Registering -/

/-- **The declared modules are registered**, each once and in the order of their first declarations,
and all of them are left to the host to resolve. -/
structure Registered (options : Options) (declared : List Text) (l : Ledger) : Prop where
  registeredPaths : l.registeredPaths = (declared.map options.resolve).eraseDups
  nodup : l.registeredPaths.Nodup
  customModules : l.customModules = l.registeredPaths.map Construction.customModule
  registrations : ∃ written : List Text, written.Sublist declared ∧
    written.map options.resolve = l.registeredPaths ∧
    l.registrations = written.map fun path => Construction.registration (options.resolve path) path
  paths : declared ⊆ l.paths

theorem eraseDups_concat (paths : List Text) (path : Text) :
    (paths ++ [path]).eraseDups = paths.eraseDups ++ if path ∈ paths then [] else [path] := by
  have hlast : ([path].removeAll paths).eraseDups = if path ∈ paths then [] else [path] := by
    by_cases h : path ∈ paths
    · simp [removeAll, h]
    · simp [removeAll, h, eraseDups_cons]
  rw [eraseDups_append, hlast]

theorem Registered.declare (h : Registered options declared l) {written : Text} :
    Registered options (declared ++ [written]) (l.declare options written) := by
  have hdups : ((declared ++ [written]).map options.resolve).eraseDups =
      l.registeredPaths ++ if options.resolve written ∈ l.registeredPaths then []
        else [options.resolve written] := by
    rw [map_append, map_singleton, eraseDups_concat, h.registeredPaths]
    simp only [mem_eraseDups]
  have hpaths : declared ++ [written] ⊆ l.paths ++ [written] :=
    append_subset.mpr ⟨fun path hpath => mem_append_left _ (h.paths hpath),
      subset_append_right _ _⟩
  obtain ⟨spelled, hsub, hspelled, hregistrations⟩ := h.registrations
  unfold Ledger.declare
  dsimp only
  split
  · next hknown =>
    refine ⟨?_, h.nodup, h.customModules, ⟨spelled, ?_, hspelled, hregistrations⟩, hpaths⟩
    · rw [hdups, if_pos (contains_iff_mem.mp hknown), append_nil]
    · exact hsub.trans (sublist_append_left _ _)
  · next hknown =>
    have hnew : options.resolve written ∉ l.registeredPaths :=
      fun h => hknown (contains_iff_mem.mpr h)
    refine ⟨?_, ?_, ?_, ⟨spelled ++ [written], hsub.append_right _, ?_, ?_⟩, hpaths⟩
    · rw [hdups, if_neg hnew]
    · exact nodup_append.mpr ⟨h.nodup, pairwise_singleton _ _, fun path hpath other hother =>
        fun heq => hnew (mem_singleton.mp hother ▸ heq ▸ hpath)⟩
    · rw [map_append, ← h.customModules]
      rfl
    · rw [map_append, hspelled]
      rfl
    · rw [map_append, ← hregistrations]
      rfl

theorem Registered.enter (h : Registered options declared l) (hasParent : Bool) :
    Registered options (declared ++ (declaredModules attributes).map Prod.snd)
      (l.enter options hasParent attributes) := by
  have hfold : Registered options (declared ++ (declaredModules attributes).map Prod.snd)
      ((declaredModules attributes).foldl (fun l item => l.declare options item.2) l) := by
    induction declaredModules attributes generalizing declared l with
    | nil => simpa using h
    | cons item rest ih => simpa using ih h.declare
  exact ⟨hfold.registeredPaths, hfold.nodup, hfold.customModules, hfold.registrations,
    fun path hpath => mem_append_left _ (hfold.paths hpath)⟩

/-- What is kept of declared modules. -/
def Ledger.files (l : Ledger) : List Script.Node × List Script.Node × List Text × List Text :=
  (l.registrations, l.customModules, l.registeredPaths, l.paths)

theorem Ledger.files_use : (l.use path name).files = l.files := by
  unfold Ledger.use
  split <;> rfl

theorem Registered.congr {l' : Ledger} (h : Registered options declared l) (hl : l'.files = l.files) :
    Registered options declared l' := by
  obtain ⟨callbacks, registrations, customModules, registeredPaths, usedTags, paths⟩ := l'
  cases hl
  exact ⟨h.registeredPaths, h.nodup, h.customModules, h.registrations, h.paths⟩

/-! ### Events that declare nothing -/

def filing (w : Walk) : List Script.Node × List Script.Node × List Text × List Text :=
  (ledger w).files

theorem filing_aloof : Aloof filing :=
  ⟨fun _ _ _ => rfl, fun _ _ => rfl, fun _ _ => rfl, fun _ _ => rfl⟩

theorem filing_deaf : Deaf filing :=
  fun _ _ => rfl

theorem filing_remote : Remote filing :=
  ⟨fun _ _ => rfl, fun _ _ => rfl, fun _ _ => rfl, fun _ _ => rfl⟩

/-! ### Completing a view -/

theorem declareModules_ok (options : Options) (declared : List (Text × Text)) (w : Walk) :
    ∃ v, declareModules options declared w = .ok () v := by
  induction declared generalizing w with
  | nil => exact ⟨w, rfl⟩
  | cons item rest ih =>
    have hone : ∃ v, declareModule options item.1 item.2 w = .ok () v := by
      show ∃ v, (if w.registeredPaths.contains (options.resolve item.2) then pure ()
        else _ : Step Unit) _ = .ok () v
      split <;> exact ⟨_, rfl⟩
    obtain ⟨u, hu⟩ := hone
    obtain ⟨v, hv⟩ := ih u
    exact ⟨v, (bind_ok hu).trans hv⟩

/-- However it ends, a view that is built has declared its modules. -/
theorem buildView_filing : filing (final (buildView options frame parent path w)) =
      ((ledger w).enter options parent.isSome frame.attributes).files := by
  obtain ⟨declared, hdeclared⟩ := declareModules_ok options (declaredModules frame.attributes) w
  obtain ⟨index, indexed, hindexed⟩ :
      ∃ index u, takeIndex (parent.any Frame.isSlot) declared = .ok index u := ⟨_, _, rfl⟩
  obtain ⟨attached, hattached⟩ :
      ∃ u, attach options { frame with index } parent.isSome indexed = .ok () u := by
    cases parent <;> exact ⟨_, rfl⟩
  obtain ⟨marked, hmarked⟩ : ∃ u, markSplice attached = .ok () u := ⟨_, rfl⟩
  have hledger : ledger marked = (ledger w).enter options parent.isSome frame.attributes := by
    rw [books_modifyDraft _ _ _ hmarked, attach_books _ _ _ _ _ hattached,
      takeIndex_books _ _ _ hindexed, declareModules_books _ _ _ hdeclared]
    rfl
  rw [← hledger]
  unfold buildView
  rw [bind_ok hdeclared, bind_ok hindexed, bind_ok hattached, bind_ok hmarked]
  split
  · have hslot : Composed filing false (openSlot options { frame with index }) :=
      openSlot_composed filing_aloof
    exact hslot.keeps filing_deaf marked
  · have helement : Composed filing false
        (openElement options { frame with index } path (parent.any Frame.isSlot)) :=
      openElement_composed filing_aloof _ _ _ _
    exact helement.keeps filing_deaf marked

/-- What recovers from an error is not seen. -/
theorem final_recovering {raises : Bool} {γ : Type} {view : Walk → γ} {m recover : Step Unit}
    (hdeaf : Deaf view) (hrecover : Composed view raises recover) :
    view (final (tryCatch m (recovering recover) w)) = view (final (m w)) := by
  cases hm : m w with
  | ok a u => rw [tryCatch_ok hm]
  | error failure u =>
    rw [tryCatch_error hm]
    cases failure with
    | defect d => rfl
    | raised e =>
      exact final_bind (congrArg Prod.fst (report_keeps hdeaf)) fun _ =>
        hrecover.keeps hdeaf

theorem completeTop_filing (options : Options) (frame : Frame) (w : Walk) :
    filing (final (completeTop options [] frame false w)) =
      filing (final (openTop options [] frame false w)) := by
  have hrecover : Composed filing false (modifyTop fun f => { f with ignored := true }) :=
    .modify (fun _ _ => rfl) fun _ => rfl
  exact final_recovering filing_deaf hrecover

/-! ### The tag on top -/

/-- A tag that receives attributes has been opened between two tags. -/
theorem Position.receives (h : Position options tags true w) :
    ∃ outer name received u, tags = ⟨name, .ofList received⟩ :: outer ∧ Scoped options outer u ∧
      Receives options name received u w := by
  cases h with
  | @within outer name received u _ hu hrun =>
    obtain ⟨t, ht, hreceives⟩ := receive_run options name received hu.tracks.lenient
      (hu.tracks.settled rfl)
    cases ht.symm.trans hrun
    exact ⟨outer, name, received, u, rfl, hu, hreceives⟩

theorem completeTag_top (hreceiver : w.receiver = .top) (hdraft : w.draft = d.push frame)
    (hignored : frame.ignored = false) :
    completeTag options given w = completeTop options [] (withAttributes given frame) false
      (({ w with receiver := .nobody } : Walk).withDraft (d.push (withAttributes given frame))) := by
  show completeReceiver options given w.receiver { w with receiver := .nobody } = _
  rw [hreceiver]
  exact completeReceiver_top hdraft hignored

/-- **A view is built from the module in scope**, or it is refused. -/
theorem openTop_view {outer : List OpenTag} {u : Walk} (hu : Scoped options outer u)
    (hframed : Framed name u)
    (hignored : u.draft.frames.head?.any (·.ignored) = false)
    (hview : kindOf name = .view)
    (hw : w.draft = (u.draft.modifyTop entered).push (viewFrame name attributes (-1))) :
    openTop options [] (viewFrame name attributes (-1)) false w = match (Name.split name).2 with
      | none => buildView options (viewFrame name attributes (-1)) w.draft.parent? none w
      | some qualifier =>
        match module? options (⟨name, attributes⟩ :: outer) qualifier with
        | some path =>
          buildView options (viewFrame name attributes (-1)) w.draft.parent? (some path) w
        | none => .error (.raised (.ofCause (.tag (.unknownNamespace qualifier name)))) w := by
  have hscope : w.draft.scope = u.draft.scope := by
    rw [hw, Draft.scope_push]
    exact Draft.scope_modifyTop (f := entered) (fun _ => rfl) u.draft
  have hfind (qualifier : Text) :
      findModule? options (declaredModules attributes) w.draft.frames qualifier =
        module? options (⟨name, attributes⟩ :: outer) qualifier := by
    rw [findModule?_eq, hscope, hu.lookup_eq hframed hignored hview]
  have hmodule := elementModule_eq options (viewFrame name attributes (-1)) w
  show (do
    let path ← elementModule options [] (viewFrame name attributes (-1))
    buildView options (viewFrame name attributes (-1)) w.draft.parent? path : Step Unit) w = _
  rw [show (viewFrame name attributes (-1)).tagName = name from rfl,
    show (viewFrame name attributes (-1)).attributes = attributes from rfl] at hmodule
  cases hqualifier : (Name.split name).2 with
  | none =>
    rw [hqualifier] at hmodule
    rw [bind_ok hmodule]
  | some qualifier =>
    rw [hqualifier] at hmodule
    dsimp only at hmodule ⊢
    rw [hfind] at hmodule
    cases hfound : module? options (⟨name, attributes⟩ :: outer) qualifier with
    | none =>
      rw [hfound] at hmodule
      rw [bind_error hmodule]
    | some path =>
      rw [hfound] at hmodule
      rw [bind_ok hmodule]

/-- A tag is completed whose frame may stand on top of a draft. -/
structure Completing (options : Options) (given : Option AttributeMap) (d : Draft) (frame : Frame)
    (w s : Walk) : Prop where
  receiver : w.receiver = .top
  draft : ∃ received, w.draft = d.push { frame with attributes := received }
  start : s = ({ w with receiver := .nobody } : Walk).withDraft (d.push frame)
  run : completeTag options given w = completeTop options [] frame false s

/-- **What completing a tag can do**, by whether that opens a view. -/
inductive Completes (options : Options) (given : Option AttributeMap) (outer : List OpenTag) (w : Walk) :
    OpenTag → (opens : Bool) → Prop
  /-- No tag receives attributes, or the one that does has been left out. -/
  | idle {tag : OpenTag} (hrun : completeTag options given w = .ok () { w with receiver := .nobody })
      (hidle : w.receiver = .nobody ∨ ∃ top, w.draft.frames.head? = some top ∧ top.ignored = true) :
      Completes options given outer w tag false
  /-- The tag is no view. -/
  | inner {tag : OpenTag} {d : Draft} {frame : Frame} {s : Walk}
      (h : Completing options given d frame w s) (hkind : frame.kind ≠ .view) :
      Completes options given outer w tag false
  /-- The tag is a view whose qualifier stands for no module. -/
  | refused {name qualifier : Text} {attributes : AttributeMap} {d : Draft} {s : Walk}
      (h : Completing options given d (viewFrame name attributes (-1)) w s)
      (hopen : openTop options [] (viewFrame name attributes (-1)) false s =
        .error (.raised (.ofCause (.tag (.unknownNamespace qualifier name)))) s)
      (hqualifier : (Name.split name).2 = some qualifier)
      (hnone : module? options (⟨name, attributes⟩ :: outer) qualifier = none) :
      Completes options given outer w ⟨name, attributes⟩ false
  | built {name : Text} {attributes : AttributeMap} {d : Draft} {path : Option Text} {s : Walk}
      (h : Completing options given d (viewFrame name attributes (-1)) w s)
      (hopen : openTop options [] (viewFrame name attributes (-1)) false s =
        buildView options (viewFrame name attributes (-1)) d.frames.head? path s)
      (hmodule : ∀ qualifier ∈ (Name.split name).2, ∃ found, path = some found ∧
        module? options (⟨name, attributes⟩ :: outer) qualifier = some found ∧
        (modulesOf options attributes ++ d.scope).lookup qualifier = some found ∧
        found ∈ ((ledger w).enter options d.frames.head?.isSome attributes).registeredPaths) :
      Completes options given outer w ⟨name, attributes⟩ true

theorem completeTag_completes (hposition : Position options tags true (soften w))
    (given : Option AttributeMap) : ∃ tag outer, after tags (.completeTag given) = tag :: outer ∧
      Completes options given outer w tag (opensView options (tag :: outer) w) := by
  obtain ⟨outer, name, received, u, rfl, hu, hreceives⟩ := hposition.receives
  refine ⟨⟨name, given.getD (.ofList received)⟩, outer, rfl, ?_⟩
  generalize hA : given.getD (.ofList received) = A
  cases hreceives with
  | outside hcore =>
    have hnobody : w.receiver = .nobody :=
      ((congrArg receiver hcore :) : w.receiver = _).trans (hu.tracks.settled rfl)
    have hsame : w = { w with receiver := .nobody } := by rw [← hnobody]
    have hclosed : opensView options (⟨name, A⟩ :: outer) w = false := by
      unfold opensView
      rw [hnobody]
    rw [hclosed]
    exact .idle ((completeTag_nobody hnobody).trans (congrArg (EStateM.Result.ok ()) hsame))
      (.inl hnobody)
  | skipped hcore =>
    have htop : w.receiver = .top := (congrArg receiver hcore :)
    have hhead : w.draft.frames.head? = some { Frame.skip name with attributes := .ofList received } :=
      (congrArg (·.draft.frames.head?) hcore :)
    have hclosed : opensView options (⟨name, A⟩ :: outer) w = false := by
      unfold opensView
      rw [htop, hhead]
      rfl
    rw [hclosed]
    refine .idle ?_ (.inr ⟨_, hhead, rfl⟩)
    show completeReceiver options given w.receiver { w with receiver := .nobody } = _
    rw [htop, completeReceiver, get_bind, hhead]
    rfl
  | @accepted frame hignored haccepted hcore hledger hframed =>
    have htop : w.receiver = .top := (congrArg receiver hcore :)
    have hdraft : w.draft =
        (u.draft.modifyTop entered).push { frame with attributes := .ofList received } :=
      (congrArg draft hcore :)
    have hopens : opensView options (⟨name, A⟩ :: outer) w = (!frame.ignored && frame.kind = .view &&
        (Name.split frame.tagName).2.all fun qualifier =>
          (module? options (⟨name, A⟩ :: outer) qualifier).isSome) := by
      unfold opensView
      rw [htop, hdraft]
      rfl
    have hcompleting : Completing options given (u.draft.modifyTop entered)
        (withAttributes given { frame with attributes := .ofList received }) w _ :=
      ⟨htop, ⟨.ofList received, hdraft⟩, rfl, completeTag_top htop hdraft haccepted.ignored⟩
    by_cases hview : kindOf name = .view
    · cases haccepted.view hview
      replace hopens : opensView options (⟨name, A⟩ :: outer) w = (Name.split name).2.all
        fun qualifier => (module? options (⟨name, A⟩ :: outer) qualifier).isSome := hopens
      have hframe : withAttributes given { Frame.new name .view (-1) with
          attributes := .ofList received } = viewFrame name A (-1) := by
        rw [← hA]
        rfl
      rw [hframe] at hcompleting
      have hopen := openTop_view hu hframed hignored hview (congrArg draft hcompleting.start)
      cases hqualifier : (Name.split name).2 with
      | none =>
        rw [hqualifier] at hopen hopens
        rw [hopens]
        exact .built hcompleting hopen (by rw [hqualifier]; simp)
      | some qualifier =>
        rw [hqualifier, Option.all_some] at hopens
        rw [hqualifier] at hopen
        dsimp only at hopen
        cases hfound : module? options (⟨name, A⟩ :: outer) qualifier with
        | none =>
          rw [hfound] at hopen hopens
          rw [hopens]
          exact .refused hcompleting hopen hqualifier hfound
        | some path =>
          rw [hfound] at hopen hopens
          rw [hopens]
          refine .built hcompleting hopen ?_
          rw [hqualifier]
          rintro _ ⟨⟩
          have hlookup := (hu.lookup_eq hframed hignored hview).trans hfound
          have hregistered := @Ledger.registeredPaths_enter options
            (u.draft.modifyTop entered).frames.head?.isSome A (ledger w)
          rw [show ledger w = ledger u from hledger] at hregistered ⊢
          refine ⟨path, rfl, hfound, ?_, hu.mem_registered hregistered.1 hregistered.2 hlookup⟩
          rw [Draft.scope_modifyTop (f := entered) (fun _ => rfl)]
          exact hlookup
    · have hkind : frame.kind ≠ .view := by
        obtain ⟨parent, _, rfl⟩ := haccepted.other hview
        exact hview
      rw [hopens, decide_eq_false hkind, Bool.and_false, Bool.false_and]
      exact .inner hcompleting hkind

/-! ### Events keep what is registered -/

theorem Registered.completeTag (h : Registered options declared (ledger w))
    (hposition : Position options tags true (soften w)) : Registered options
      (declared ++ declaredAt options w (after tags (.completeTag given)) (.completeTag given))
      (ledger (final (completeTag options given w))) := by
  obtain ⟨tag, outer, htags, hcompletes⟩ := completeTag_completes hposition given
  rw [htags, declaredAt]
  generalize opensView options (tag :: outer) w = opens at hcompletes ⊢
  cases hcompletes with
  | idle hrun =>
    rw [if_neg Bool.false_ne_true, append_nil, hrun]
    exact h.congr rfl
  | inner hinner hkind =>
    rw [if_neg Bool.false_ne_true, append_nil, hinner.run]
    refine h.congr ((completeTop_filing _ _ _).trans ?_)
    rw [hinner.start]
    exact (openInner_composed filing_aloof.draft options [] hkind false).keeps filing_deaf _
  | refused hview hopen =>
    rw [if_neg Bool.false_ne_true, append_nil, hview.run]
    refine h.congr ((completeTop_filing _ _ _).trans ?_)
    rw [hopen, hview.start]
    rfl
  | @built name attributes d path s hview hopen =>
    rw [if_pos rfl, hview.run]
    refine (h.enter d.frames.head?.isSome).congr ((completeTop_filing _ _ _).trans ?_)
    rw [hopen, buildView_filing, hview.start]
    rfl

/-- **The step.**  However an event ends, what has been declared is registered. -/
theorem Registered.event {receives : Bool} {e : TagEvent}
    (h : Registered options declared (ledger w))
    (hposition : Position options tags receives (soften w))
    (hn : Nesting.next? ⟨tags.map OpenTag.name, receives⟩ e = some n) :
    Registered options (declared ++ declaredAt options w (after tags e) e)
      (ledger (final (Walk.event options e w))) := by
  have hquiet {m : Step Unit} (hm : Composed filing false m) :
      Registered options (declared ++ []) (ledger (final (m w))) := by
    rw [append_nil]
    exact h.congr (hm.keeps filing_deaf w)
  cases e with
  | openTag name => exact hquiet (openTag_composed filing_remote (fun _ _ => rfl) options fun _ _ _ => rfl)
  | setAttribute name value =>
    have hnone : declaredAt options w (after tags (.setAttribute name value))
        (.setAttribute name value) = [] := by
      cases tags <;> rfl
    rw [hnone]
    exact hquiet (setAttribute_composed filing_remote)
  | completeTag given =>
    cases receives with
    | false => cases hn
    | true => exact h.completeTag hposition
  | closeTag name =>
    have hnone : declaredAt options w (after tags (.closeTag name)) (.closeTag name) = [] := by
      rcases tags with _ | ⟨_, _ | _⟩ <;> rfl
    rw [hnone]
    exact hquiet (closeTag_composed filing_remote filing_aloof options fun _ _ _ => rfl)
  | finish =>
    have hnone : declaredAt options w (after tags .finish) .finish = [] := by
      cases tags <;> rfl
    rw [hnone]
    exact hquiet finish_composed

/-- **The run.** -/
theorem Registered.events {receives : Bool} {es : List TagEvent}
    (h : Registered options declared (ledger w))
    (hposition : Position options tags receives (soften w))
    (hn : Nesting.after? ⟨tags.map OpenTag.name, receives⟩ es = some n) :
    Registered options (declared ++ declaredAlong options tags es w)
      (ledger (final (Walk.events options es w))) := by
  induction es generalizing tags receives w declared with
  | nil =>
    rw [declaredAlong, append_nil]
    exact h
  | cons e rest ih =>
    obtain ⟨m, hm, hrest⟩ := Option.bind_eq_some_iff.mp hn
    have hstep := h.event hposition hm
    rw [declaredAlong, ← append_assoc, events_cons]
    cases hrun : Walk.event options e w with
    | error failure v =>
      rw [hrun] at hstep
      rw [bind_error hrun, append_nil]
      exact hstep
    | ok _ v =>
      rw [hrun] at hstep
      rw [bind_ok hrun]
      have hv := hposition.event hm ((event_composed options e).soften_ok hrun)
      obtain ⟨opened, receives⟩ := m
      cases OpenTag.opened_after hm
      exact ih hstep hv hrest

/-! ### Views with qualified names -/

/-- **What becomes of a view with a qualified name**, given the module in scope under its qualifier
and the draft below its frame. -/
inductive Resolves (options : Options) (qualifier : Text) (d : Draft) (frame : Frame) (w : Walk) :
    Option Text → EStateM.Result Failure Walk Unit → Prop
  /-- There is none: the tag is reported and left out, and nothing is written or declared. -/
  | refused {attributes : AttributeMap} {range : Option SourceRange} {v : Walk}
      (hmode : w.channel.strict = false)
      (hdraft : v.draft = d.push { frame with attributes, ignored := true })
      (hledger : ledger v = ledger w)
      (hreports : v.channel.reports = w.channel.reports ++
        [.error (.tag (.unknownNamespace qualifier frame.tagName)) range]) :
      Resolves options qualifier d frame w none (.ok () v)
  /-- There is none, and the walk ends. -/
  | raised {range : Option SourceRange} {v : Walk} (hmode : w.channel.strict = true)
      (hledger : ledger v = ledger w) :
      Resolves options qualifier d frame w none
        (.error (.raised ⟨.tag (.unknownNamespace qualifier frame.tagName), range, true⟩) v)
  /-- It is registered, and the element is made from it. -/
  | found {path : Text} {r : EStateM.Result Failure Walk Unit}
      (hregistered : path ∈ (final r).registeredPaths)
      (hopened : ∀ v, r = .ok () v → v.draft.frames.head?.any (fun top => !top.ignored) = true)
      (hcode : ∀ v, r = .ok () v → ∃ isFallback before after,
        v.draft.buffer = d.buffer ++ (before ++ Construction.constructCustom options.settings
          v.treeIndex (Name.split frame.tagName).1 path isFallback ++ after).map .code) :
      Resolves options qualifier d frame w (some path) r

/-- A view whose module is known is built, unless that fails. -/
theorem completeTop_built
    (hopen : openTop options [] frame false w = buildView options frame parent path w)
    (h : completeTop options [] frame false w = .ok () v) :
    openTop options [] frame false w = .ok () v := by
  rcases recovering_ok (openTop_composed outline_apart options [] frame false) h with
    hok | ⟨hmode, e, u, _, hraised, _⟩
  · exact hok
  · rw [hopen] at hraised
    exact absurd hraised ((buildView_composed outline_apart options frame parent path).not_raised
      hmode)

/-- What a custom element writes. -/
theorem openTop_custom {path : Text} (hqualifier : (Name.split name).2 = some qualifier)
    (hpath : (modulesOf options attributes ++ d.scope).lookup qualifier = some path)
    (hw : w.draft = d.push (viewFrame name attributes (-1)))
    (h : openTop options [] (viewFrame name attributes (-1)) false w = .ok () v) :
    v.draft.frames.head?.any (fun top => !top.ignored) = true ∧
      ∃ isFallback before after, v.draft.buffer = d.buffer ++ (before ++
        Construction.constructCustom options.settings v.treeIndex (Name.split name).1 path isFallback ++
          after).map .code := by
  have hname : name ≠ Frame.slotTag := by
    rintro rfl
    cases hqualifier
  have hrun : openView options [] (viewFrame name attributes (-1)) d.frames.head? w = .ok () v := by
    have hparent : w.draft.parent? = d.frames.head? := by rw [hw]; rfl
    rw [← hparent]
    exact h
  have hstart : core w = (core w).withDraft (d.push (viewFrame name attributes (-1))) := by
    rw [← hw]
    rfl
  have hcore := core_eq hstart hrun (openView_element options d attributes hname)
  have hmodule : modulePath? (modulesOf options attributes ++ d.scope) name =
      some path := by
    rw [modulePath?, hqualifier]
    exact hpath
  rw [hmodule, inTag_shared rfl] at hcore
  obtain ⟨d', start, hdraft⟩ : ∃ d' start, v.draft =
      (Draft.setBuffer d' (d.buffer ++ (rootIntro options d attributes).map .code ++
        elementOpening options (some path) name attributes v.treeIndex
          (d.frames.head?.any Frame.isSlot))).push
        (elementFrame options (some path) name attributes v.treeIndex start) := by
    rw [show v.treeIndex = _ from (congrArg treeIndex hcore :)]
    exact ⟨_, _, (congrArg draft hcore :)⟩
  refine ⟨by rw [hdraft]; rfl, d.frames.head?.any Frame.isSlot,
    rootIntro options d attributes ++ Element.slotVariable (some path) v.treeIndex,
    Element.setters options name attributes v.treeIndex, ?_⟩
  rw [hdraft, Draft.buffer_push rfl, Draft.buffer_setBuffer]
  simp only [elementOpening, Element.creation, map_append, append_assoc]

theorem completeTag_resolves
    (hposition : Position options tags true (soften w)) (hreceiver : w.receiver = .top)
    (hdraft : w.draft = d.push frame) (hkind : frame.kind = .view) (hignored : frame.ignored = false)
    (hqualifier : (Name.split frame.tagName).2 = some qualifier) :
    Resolves options qualifier d frame w
      (module? options (after tags (.completeTag given)) qualifier)
      (completeTag options given w) := by
  obtain ⟨tag, outer, htags, hcompletes⟩ := completeTag_completes hposition given
  rw [htags]
  generalize opensView options (tag :: outer) w = opens at hcompletes
  cases hcompletes with
  | idle _ hidle =>
    rcases hidle with hnobody | ⟨top, htop, hleft⟩
    · cases hreceiver.symm.trans hnobody
    · rw [hdraft] at htop
      cases htop
      cases hignored.symm.trans hleft
  | inner h hother =>
    obtain ⟨received, hbefore⟩ := h.draft
    obtain ⟨_, rfl⟩ := Draft.push_inj (hdraft.symm.trans hbefore)
    exact absurd hkind hother
  | @refused name _ attributes _ s h hopen hunknown hnone =>
    obtain ⟨received, hbefore⟩ := h.draft
    obtain ⟨rfl, rfl⟩ := Draft.push_inj (hdraft.symm.trans hbefore)
    cases hqualifier.symm.trans hunknown
    have hcatch : completeTop options [] (viewFrame name attributes (-1)) false s = _ :=
      tryCatch_error hopen
    have hchannel : s.channel = w.channel := by rw [h.start]; rfl
    have hledger : ledger s = ledger w := by rw [h.start]; rfl
    rw [hnone, h.run, hcatch]
    cases hmode : w.channel.strict with
    | false =>
      have hreport := @report_lenient s
        (.ofCause (.tag (.unknownNamespace qualifier name))) rfl (hchannel ▸ hmode)
      rw [recovering, bind_ok hreport, modifyTop, modifyDraft, run_modify]
      apply Resolves.refused hmode
      case hdraft =>
        rw [h.start]
        rfl
      case hledger => exact hledger
      case hreports =>
        rw [← hchannel]
        rfl
    | true =>
      have hreport := @report_strict s
        (.ofCause (.tag (.unknownNamespace qualifier name))) rfl (hchannel ▸ hmode)
      rw [recovering, bind_error hreport]
      exact .raised hmode hledger
  | @built name attributes _ path s h hopen hmodule =>
    obtain ⟨received, hbefore⟩ := h.draft
    obtain ⟨rfl, rfl⟩ := Draft.push_inj (hdraft.symm.trans hbefore)
    obtain ⟨found, rfl, hfound, hlookup, hmem⟩ := hmodule qualifier hqualifier
    have hsdraft : s.draft = d.push (viewFrame name attributes (-1)) := congrArg draft h.start
    rw [hfound, h.run]
    refine .found ?_ (fun v hv => ?_) fun v hv => ?_
    · have hfiling := (completeTop_filing options (viewFrame name attributes (-1)) s).trans
        ((congrArg (fun r => filing (final r)) hopen).trans buildView_filing)
      rw [show (final _).registeredPaths = _ from congrArg (fun files => files.2.2.1) hfiling, h.start]
      exact hmem
    · exact (openTop_custom hqualifier hlookup hsdraft (completeTop_built hopen hv)).1
    · exact (openTop_custom hqualifier hlookup hsdraft (completeTop_built hopen hv)).2

/-! ### Well-nested streams -/

/-- When a tag of a well-nested stream is completed, it still receives attributes. -/
theorem position_completing {channel : Channel} {taken rest : List TagEvent}
    (hstream : WellNested (taken ++ [.completeTag given] ++ rest))
    (hw : events options taken (start channel) = .ok () w) :
    Position options (openTags taken) true (soften w) ∧
      openTags (taken ++ [.completeTag given]) = after (openTags taken) (.completeTag given) := by
  have hstart : Position options [] false (soften (start channel)) := position_start rfl
  obtain ⟨n', hn', _⟩ := Nesting.after?_of_append hstream
  obtain ⟨n, hn, hnext⟩ := Nesting.after?_of_concat hn'
  have hposition := hstart.events hn ((events_composed options taken).soften_ok hw)
  cases Nesting.follows_of_next? hnext
  exact ⟨hposition, foldl_append⟩

/-- **Modules are registered once and found by scope.**  A walk in any mode takes the events of a
well-nested stream.

* After every prefix, also if an event of it has ended the walk, the modules that views have declared
  are registered.
* A view with a qualified name is made from the module in scope under its qualifier; if there is
  none, it is refused.
* When a tag closes, the open tags are again those before its opening tag, so what it has declared
  is not found any more. -/
theorem events_modules (options : Options) (channel : Channel) {stream : List TagEvent}
    (hstream : WellNested stream) : (∀ taken, taken <+: stream →
      Registered options (declaredAlong options [] taken (start channel))
        (ledger (final (events options taken (start channel))))) ∧
    (∀ taken given w d frame qualifier, taken ++ [.completeTag given] <+: stream →
      events options taken (start channel) = .ok () w → w.receiver = .top →
      w.draft = Draft.push d frame → frame.kind = .view → frame.ignored = false →
      (Name.split frame.tagName).2 = some qualifier →
      Resolves options qualifier d frame w
        (module? options (openTags (taken ++ [.completeTag given])) qualifier)
        (completeTag options given w)) ∧ ∀ taken name, taken ++ [.closeTag name] <+: stream →
      ∃ before inner, taken = before ++ .openTag name :: inner ∧
        openTags (taken ++ [.closeTag name]) = openTags before := by
  have hstart : Position options [] false (soften (start channel)) := position_start rfl
  refine ⟨?_, ?_, ?_⟩
  · rintro taken ⟨rest, rfl⟩
    obtain ⟨n, hn, _⟩ := Nesting.after?_of_append hstream
    have hnone : Registered options [] (ledger (start channel)) :=
      ⟨rfl, nodup_nil, rfl, ⟨[], List.Sublist.refl _, rfl, rfl⟩, fun _ h => nomatch h⟩
    exact hnone.events hstart hn
  · rintro taken given w d frame qualifier ⟨rest, rfl⟩ hw hreceiver hdraft hkind hignored hqualifier
    obtain ⟨hposition, htags⟩ := position_completing hstream hw
    rw [htags]
    exact completeTag_resolves hposition hreceiver hdraft hkind hignored hqualifier
  · rintro taken name ⟨rest, rfl⟩
    obtain ⟨n', hn', _⟩ := Nesting.after?_of_append hstream
    obtain ⟨⟨opened, receives⟩, hn, hnext⟩ := Nesting.after?_of_concat hn'
    have hopened : opened = (openTags taken).map OpenTag.name := @OpenTag.opened_foldl false _ [] _ hn
    have htags : openTags (taken ++ [.closeTag name]) = after (openTags taken) (.closeTag name) :=
      foldl_append
    cases Nesting.follows_of_next? hnext with
    | closeTag =>
      obtain ⟨tag, outer, hopen, rfl, rfl⟩ := map_eq_cons_iff.mp hopened.symm
      obtain ⟨before, inner, htaken, hbefore⟩ :=
        OpenTag.exists_openTags (hopen.trans (nil_append _).symm)
      rw [hopen] at htags
      exact ⟨before, inner, htaken, htags.trans hbefore.symm⟩

/-- A page with two cards from different modules under one name, one of which is declared again under
another name, and an element from a module that has been declared in a tag before it. -/
def cardModules : List Element :=
  [.mk "Page" [("xmlns:c", "cards")]
    [.mk "c:Card" [("xmlns:c", "icons"), ("xmlns:d", "./cards")] [],
      .mk "c:Card" [] [],
      .mk "d:Card" [] []]]

/-- Whether a view with a qualified name is on top and receives attributes. -/
def awaits (qualifier : Text) (w : Walk) : Bool :=
  match w.receiver, w.draft.frames with
  | .top, frame :: _ => frame.kind = .view && !frame.ignored &&
      (Name.split frame.tagName).2 = some qualifier
  | _, _ => false

theorem exists_of_awaits (h : awaits qualifier w = true) :
    ∃ d frame, w.receiver = .top ∧ w.draft = Draft.push d frame ∧ frame.kind = .view ∧
      frame.ignored = false ∧ (Name.split frame.tagName).2 = some qualifier := by
  unfold awaits at h
  split at h
  · next frame below hreceiver hframes =>
    simp only [Bool.and_eq_true, decide_eq_true_eq, Bool.not_eq_true'] at h
    refine ⟨⟨below, w.draft.body⟩, frame, hreceiver, ?_, h.1.1, h.1.2, h.2⟩
    rw [Draft.push, ← hframes]
  · cases h

theorem events_modules_cardModules :
    Registered (.standard .standard) ["cards", "icons", "./cards"]
        (ledger (final (events (.standard .standard) (eventsOf cardModules)
          (start (.empty false .unknown))))) ∧
      ∃ w d frame, events (.standard .standard) ((eventsOf cardModules).take 6)
          (start (.empty false .unknown)) = .ok () w ∧
        Resolves (.standard .standard) "c" d frame w (some "icons")
          (completeTag (.standard .standard)
            (some [("xmlns:c", "icons"), ("xmlns:d", "./cards")]) w) := by
  have hmodules := events_modules (.standard .standard) (.empty false .unknown)
    (by decide : WellNested (eventsOf cardModules))
  have hdeclared : declaredAlong (.standard .standard) [] (eventsOf cardModules)
      (start (.empty false .unknown)) = (["cards", "icons", "./cards"] : List Text) := by
    decide +kernel
  have hok : succeeds (events (.standard .standard) ((eventsOf cardModules).take 6)
      (start (.empty false .unknown))) = true := by
    decide +kernel
  have hawaits : awaits "c" (final (events (.standard .standard)
      ((eventsOf cardModules).take 6) (start (.empty false .unknown)))) = true := by
    decide +kernel
  obtain ⟨d, frame, hreceiver, hdraft, hkind, hignored, hqualifier⟩ := exists_of_awaits hawaits
  refine ⟨hdeclared ▸ hmodules.1 _ (prefix_refl _), _, d, frame, eq_ok_of_succeeds hok, ?_⟩
  exact hmodules.2.1 _ _ _ d frame "c" ⟨(eventsOf cardModules).drop 7, rfl⟩
    (eq_ok_of_succeeds hok) hreceiver hdraft hkind hignored hqualifier

end ViewMarkup.Walk
