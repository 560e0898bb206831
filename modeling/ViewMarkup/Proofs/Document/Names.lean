import ViewMarkup.Proofs.Document.Totality

/-!
# Every generated name is declared once and before its uses

A document is walked over, and its module is assembled.  Whatever errors there were on the way, every
name in the module that is made for a view has its place.

* `NamesPlaced` says where the names are declared in a constructor and among the functions beside it;
  `namesPlaced_of_tidy` shows it for tidy code.
* `tags_harden` carries what is known of lenient walks over to strict ones.
* `compile_names` is the statement about documents.
-/

namespace ViewMarkup.Document

open List
open Module (constructor assemble programOf rawProgram)
open Construction (customModule rootDeclarations text_notMem_prelude preludeNames)
open Script (Node straysIn strays straysAll declared declaredAll functionNames introduced introducedIn)
open Walk (Registered customTop harden final)

variable {options : Options} {events inner rest : List Xml.Event} {w v : Walk} {P : Text → Prop}
  {content : Text} {module : Module}

/-! ### The constructor -/

/-- **Every generated name has its place** in the constructor and among the functions of a module,
given the last index handed out and the indices of custom elements. -/
structure NamesPlaced (constructor : Node) (statements callbacks : List Node) (last : Int)
    (customs : List Int) : Prop where
  elements : ∀ k : Int, (declared constructor).count (GeneratedName.element k).text =
    if 0 ≤ k ∧ k ≤ last then 1 else 0
  slotViews : ∀ k ∈ customs, (declared constructor).count (GeneratedName.slotViews k).text = 1
  prelude : ∀ name ∈ preludeNames, (declared constructor).count name = 1
  /-- No occurrence of a variable stands before its declaration or outside the block of it. -/
  governed : ∀ g : GeneratedName, g.isFunction = false → g.text ∉ strays constructor
  outside : ∀ g : GeneratedName, g.isFunction = false → g.text ∉ straysAll callbacks
  once : ∀ g : GeneratedName, g.isFunction = true → (functionNames statements).count g.text ≤ 1
  referred : ∀ g : GeneratedName, g.isFunction = true →
    (g.text ∈ functionNames statements ↔ g.text ∈ strays constructor ∨
      ∃ node ∈ callbacks, Script.functionName? node ≠ some g.text ∧ g.text ∈ strays node)

section Constructor

variable {settings : Settings} {paths : List Text} {body : List Node} {g : GeneratedName}

theorem declaredAll_customModules : declaredAll (paths.map customModule) = [] := by
  induction paths with
  | nil => rfl
  | cons path paths ih =>
    rw [map_cons, declaredAll, ih]
    simp [customModule, declared, declaredAll]

theorem straysAll_customModules : g.text ∉ straysAll (paths.map customModule) := by
  induction paths with
  | nil => exact nofun
  | cons path paths ih =>
    rw [map_cons, straysAll, mem_append, not_or]
    refine ⟨?_, ih⟩
    simp [customModule, strays, straysAll]

theorem declared_constructor (settings : Settings) (paths : List Text) (body : List Node) :
    declared (constructor settings (paths.map customModule) body) =
      Text.ofString "customModules" :: declaredAll body := by
  simp [constructor, declared, declaredAll, Script.declaredAll_append, Script.declaredOption,
    declaredAll_customModules]

theorem mem_strays_constructor (hstem : settings.elementStem = "el") :
    g.text ∈ strays (constructor settings (paths.map customModule) body) ↔
      g.text ∈ straysIn body ∨ g.text ∉ introducedIn body ∧ g = .element 0 := by
  have hending : ∀ e, introduced (.expressionStatement e) = [] := fun _ => rfl
  simp [constructor, strays, straysAll, Script.mem_ungoverned, Script.mem_straysIn_append,
    straysIn, Script.straysOption, straysAll_customModules, introducedIn, hending, Script.boundAll,
    Script.bound, GeneratedName.elementName_eq hstem]

variable {parent : Place} {code : Code} {callbacks statements : List Node}
  {locals functions : List GeneratedName} {customs : List Int}

/-- Tidy code in a constructor. -/
theorem namesPlaced_of_tidy (h : Tidy parent (-1) code callbacks locals functions)
    (hstem : options.settings.elementStem = "el") (hkind : parent.kind ≠ .view)
    (hslot : parent.isSlot = false) (hgiven : code.given = [])
    (hroot : ChildView.indices code.views = [0]) (hcustoms : ∀ k ∈ customs, .slotViews k ∈ locals)
    (hstatements : functionNames statements = functionNames callbacks) {attributes : AttributeMap}
    (hbody : body = rootDeclarations options attributes ++ code.nodes) :
    NamesPlaced (constructor options.settings (paths.map customModule) body) statements callbacks
      code.last customs := by
  have hdeclares : Declares code.nodes locals := by
    have hdeclares := h.declares
    rwa [hgiven, nil_append] at hdeclares
  have hstray (g : GeneratedName) := @mem_strays_constructor options.settings paths body g hstem
  have hdeclared := declared_constructor options.settings paths body
  generalize constructor options.settings (paths.map customModule) body = node at hstray hdeclared ⊢
  rw [hbody, Script.declaredAll_append, Construction.declaredAll_rootDeclarations] at hdeclared
  have hlocal (g : GeneratedName) : (declared node).count g.text = locals.count g := by
    rw [hdeclared, ← cons_append, count_append, ← hdeclares.count,
      count_eq_zero.mpr text_notMem_prelude, Nat.zero_add]
  have hfunctions (g : GeneratedName) : (functionNames statements).count g.text =
      functions.count g := by
    rw [hstatements, h.defines]
    exact count_map_of_injective _ _ (fun _ _ => GeneratedName.text_injective) g
  have hstrays (g : GeneratedName) : g.text ∈ straysIn body ↔ g.text ∈ straysIn code.nodes := by
    have hnew : g.text ∉ introducedIn (rootDeclarations options attributes) := by
      rw [Construction.introducedIn_rootDeclarations]
      exact fun hmem => text_notMem_prelude (mem_cons_of_mem _ hmem)
    rw [hbody, Script.mem_straysIn_append]
    simp only [Construction.straysIn_rootDeclarations, hnew, not_false_eq_true, true_and, false_or]
  constructor
  case elements =>
    intro k
    rw [hlocal, h.inventory.nodup.1.count]
    refine if_congr ((h.inventory.elements k).trans ?_) rfl rfl
    omega
  case slotViews =>
    intro k hk
    rw [hlocal, h.inventory.nodup.1.count, if_pos (hcustoms k hk)]
  case prelude =>
    intro name hname
    obtain ⟨hfallback, honce⟩ : name ≠ "fallbackViews" ∧
        (Text.ofString "customModules" :: preludeNames).count name = 1 := by
      revert name
      decide +kernel
    have hword : ∀ g ∈ locals, g.text ≠ name := by
      rintro g _ rfl
      exact text_notMem_prelude (mem_cons_of_mem _ hname)
    have hnone : (declaredAll code.nodes).count name = 0 := by
      rw [hdeclares name hfallback, count_eq_zero]
      intro hmem
      obtain ⟨g, hg, heq⟩ := mem_map.mp hmem
      exact hword g hg heq
    rw [hdeclared, ← cons_append, count_append, hnone, honce]
  case governed =>
    intro g hg hmem
    rw [hstray, hstrays] at hmem
    rcases hmem with hmem | ⟨hnew, rfl⟩
    · exact hkind (h.nodes g hg hmem).1
    · refine hnew ?_
      rw [hbody, Script.introducedIn_append]
      refine mem_append_right _ (h.seen hslot 0 ?_)
      rw [hroot]
      exact mem_singleton_self 0
  case outside => exact h.outside
  case once =>
    intro g _
    rw [hfunctions]
    exact nodup_iff_count_le_one.mp h.inventory.nodup.2 g
  case referred =>
    intro g hg
    have hnone : g.text ∉ introducedIn code.nodes := (h.not_introduced hg).2
    have hvariable : g ≠ .element 0 := by
      rintro rfl
      cases hg
    rw [← count_pos_iff, hfunctions, count_pos_iff, h.referred g hg, hgiven, nil_append,
      Script.straysAll_append, mem_append, hstray, hstrays, Script.mem_straysIn_of_notMem hnone]
    simp only [hvariable, and_false, or_false]
    refine or_congr_right ?_
    rw [Script.mem_straysAll]
    constructor
    · rintro ⟨node, hnode, hmem⟩
      exact ⟨node, hnode, fun hself => h.selfless node hnode _ hself hmem, hmem⟩
    · rintro ⟨node, hnode, _, hmem⟩
      exact ⟨node, hnode, hmem⟩

end Constructor

/-! ### Documents -/

/-- Strict mode makes no difference to a walk over tags that succeeds. -/
theorem tags_harden (hw : w.channel.strict = false) (h : tags options events (harden w) = .ok () v) :
    ∃ u, tags options events w = .ok () u ∧ v = harden u ∧
      customsAlong options events (harden w) = customsAlong options events w := by
  induction events generalizing w with
  | nil =>
    cases h
    exact ⟨w, rfl, rfl, rfl⟩
  | cons event rest ih =>
    obtain ⟨_, u', hu', h⟩ := Walk.bind_eq_ok h
    have hagree := @tag_agree options w event hw
    have hcompared := hagree.compared
    rw [hu'] at hcompared
    obtain ⟨u, hu, rfl⟩ := hcompared.of_ok
    have hlenient : u.channel.strict = false := by
      have hlenient := hagree.lenient
      rwa [hu] at hlenient
    obtain ⟨t, ht, hv, hcustoms⟩ := ih hlenient h
    refine ⟨t, ?_, hv, ?_⟩
    · show (do tag options event; tags options rest) w = _
      rw [Walk.bind_ok hu, ht]
    · show customTop (final (tag options event (harden w))) ++ _ =
        customTop (final (tag options event w)) ++ _
      rw [hu, hu']
      exact congrArg (customTop u ++ ·) hcustoms

theorem finish_eq (h : Walk.finish w = .ok () v) (hroot : v.initialized = true) : v = w := by
  unfold Walk.finish at h
  rw [Walk.get_bind] at h
  cases hinitialized : w.initialized with
  | true =>
    rw [hinitialized] at h
    cases h
    rfl
  | false =>
    rw [hinitialized] at h
    have hfinal := Walk.final_report (.ofCause (.tag .noRoot)) w
    rw [show Walk.report (.ofCause (.tag .noRoot)) w = .ok () v from h] at hfinal
    rw [show v = _ from hfinal] at hroot
    cases hinitialized.symm.trans hroot

/-- A walk over a document that finds a root has gone over all tags. -/
theorem walk_tags (h : walk options content w = .ok () v) (hroot : v.initialized = true) :
    (Xml.read containerName content).2 = none ∧
      tags options (Xml.read containerName content).1 w = .ok () v := by
  unfold walk at h
  rcases hread : Xml.read containerName content with ⟨events, misread⟩
  rw [hread] at h
  obtain ⟨_, u, hu, h⟩ := Walk.bind_eq_ok h
  cases misread with
  | some misread =>
    obtain ⟨_, t, ht, _⟩ := Walk.bind_eq_ok h
    cases raiseFault_eq.symm.trans ht
  | none =>
    refine ⟨rfl, hu.trans ?_⟩
    rw [finish_eq h hroot]

/-- What is assembled from a walk. -/
theorem assemble_eq (h : assemble options w = .ok module v) :
    module.program = programOf options (Name.component options.modulePath) w ∧
      module.callbacks = w.callbacks := by
  unfold assemble at h
  rw [Walk.get_bind] at h
  dsimp only at h
  cases hprint : Script.print (programOf options (Name.component options.modulePath) w) with
  | error fault =>
    rw [hprint] at h
    cases h
  | ok code =>
    rw [hprint] at h
    cases h
    exact ⟨rfl, rfl⟩

/-- Where the module of a document comes from: from its text, or from a walk that has found a
root. -/
theorem compile_module {compilation : Compilation} {channel : Channel}
    (h : compile options content = (.ok compilation, channel))
    (hmodule : compilation.module = some module) :
    isRaw content = true ∧ module.program = rawProgram content ∨
      isRaw content = false ∧ ∃ w, walk options content (startWalk options content) = .ok () w ∧
        w.initialized = true ∧
        module.program = programOf options (Name.component options.modulePath) w ∧
        module.callbacks = w.callbacks := by
  unfold compile at h
  cases hraw : isRaw content with
  | true =>
    rw [hraw, if_pos rfl] at h
    refine .inl ⟨rfl, ?_⟩
    cases hprint : Script.print (rawProgram content) with
    | error fault =>
      rw [Module.ofRawText, hprint] at h
      cases h
    | ok code =>
      cases h
      cases hmodule
      rfl
  | false =>
    rw [hraw, if_neg Bool.false_ne_true] at h
    refine .inr ⟨rfl, ?_⟩
    cases hwalk : walk options content (startWalk options content) with
    | error failure w =>
      rw [show (walk options content).run (startWalk options content) = _ from hwalk] at h
      cases failure with
      | defect d => cases h
      | raised e =>
        unfold conclude at h
        dsimp only at h
        split at h <;> cases h
        cases hmodule
    | ok _ w =>
      rw [show (walk options content).run (startWalk options content) = _ from hwalk] at h
      unfold conclude at h
      dsimp only at h
      cases hroot : w.initialized with
      | false =>
        rw [hroot] at h
        cases h
        cases hmodule
      | true =>
        rw [hroot, if_pos rfl] at h
        rw [map_eq_pure_bind, EStateM.run] at h
        cases hassemble : assemble options w with
        | error failure v =>
          rw [Walk.bind_error hassemble] at h
          cases h
        | ok found v =>
          rw [Walk.bind_ok hassemble] at h
          cases h
          cases hmodule
          exact ⟨w, rfl, hroot, assemble_eq hassemble⟩

/-- A walk over the tags of a document that succeeds does so in lenient mode. -/
theorem tags_lenient (h : tags options events (startWalk options content) = .ok () w) :
    ∃ v, tags options events (startWalk { options with strict := false } content) = .ok () v ∧
      (w = v ∨ w = harden v) ∧ customsAlong options events (startWalk options content) =
        customsAlong options events (startWalk { options with strict := false } content) := by
  cases hstrict : options.strict with
  | false =>
    have hself : startWalk options content = startWalk { options with strict := false } content := by
      unfold startWalk
      rw [hstrict]
    rw [hself] at h ⊢
    exact ⟨w, h, .inl rfl, rfl⟩
  | true =>
    have hself : startWalk options content =
        harden (startWalk { options with strict := false } content) := by
      unfold startWalk
      rw [hstrict]
      rfl
    rw [hself] at h ⊢
    obtain ⟨v, hv, hw, hcustoms⟩ := tags_harden rfl h
    exact ⟨v, hv, .inr hw, hcustoms⟩

/-- The functions that a module declares are those for its bindings. -/
theorem functionNames_programOf {declared : List Text}
    (h : Registered options declared (Walk.ledger w)) {component : Text} :
    ∃ statements, programOf options component w = .program statements ∧
      functionNames statements = functionNames w.callbacks := by
  have himports (tags : List Text) : functionNames (Module.imports options.settings tags) = [] := by
    unfold Module.imports
    split <;> rfl
  have hregistrations : functionNames w.registrations = [] := by
    obtain ⟨written, _, _, hwritten⟩ := h.registrations
    rw [show w.registrations = _ from hwritten, functionNames, filterMap_map]
    exact filterMap_eq_nil_iff.mpr fun _ _ => rfl
  refine ⟨_, rfl, ?_⟩
  simp only [functionNames, filterMap_append] at himports hregistrations ⊢
  rw [himports, hregistrations]
  exact append_nil _

/-- **Every generated name is declared exactly once and before all its uses.**  In a document that is
exported as it is there are none. -/
theorem compile_names {content : Text} {compilation : Compilation} {channel : Channel}
    {module : Module} (hstem : options.settings.elementStem = "el")
    (hunlike : ∀ offset name attributes,
      .startTag offset name attributes ∈ (Xml.read containerName content).1 → Element.Unlike name)
    (h : compile options content = (.ok compilation, channel))
    (hmodule : compilation.module = some module) :
    isRaw content = true ∧ module.program = rawProgram content ∨
      ∃ w statements, walk options content (startWalk options content) = .ok () w ∧
        module.program = programOf options (Name.component options.modulePath) w ∧
        module.program = .program statements ∧
        NamesPlaced (constructor options.settings w.customModules w.draft.nodes) statements
          module.callbacks w.treeIndex
          (customsAlong options (Xml.read containerName content).1 (startWalk options content)) := by
  rcases compile_module h hmodule with hraw | ⟨_, w, hwalk, hroot, hprogram, hcallbacks⟩
  · exact .inl hraw
  · obtain ⟨hread, htags⟩ := walk_tags hwalk hroot
    obtain ⟨v, hv, hmode, hcustoms⟩ := tags_lenient htags
    have hset : v.initialized = true := by
      rcases hmode with rfl | rfl <;> exact hroot
    obtain ⟨attributes, x, hx⟩ := tags_built (Xml.read_balanced hread) hunlike
      (resting_startWalk rfl) rfl hv hset
    rw [← hcustoms] at hx
    generalize customsAlong options (Xml.read containerName content).1 (startWalk options content) =
      customs at hx ⊢
    have hw : Built options Element.Unlike customs w attributes x := by
      rcases hmode with rfl | rfl
      · exact hx
      · exact ⟨hx.row, hx.given, hx.views, hx.nodes, hx.callbacks, hx.treeIndex, hx.registered,
          hx.customs⟩
    obtain ⟨declared, hregistered⟩ := hw.registered
    obtain ⟨statements, hstatements, hnames⟩ := functionNames_programOf hregistered
    refine .inr ⟨w, statements, hwalk, hprogram, hprogram.trans hstatements, ?_⟩
    have hmodules : w.customModules = w.registeredPaths.map customModule :=
      hregistered.customModules
    rw [hcallbacks, hw.callbacks, hw.treeIndex, hmodules]
    rw [hw.callbacks] at hnames
    obtain ⟨locals, functions, htidy, hlocals⟩ := hw.row.tidy hstem fun _ h => h
    exact namesPlaced_of_tidy htidy hstem nofun rfl hw.given hw.views
      (fun k hk => hlocals k (hw.customs hk)) hnames hw.nodes

/-! ### A document with names of all kinds -/

/-- A lenient walk that has found a root has a module. -/
theorem exists_module (hstrict : options.strict = false) (hraw : isRaw content = false)
    (h : walk options content (startWalk options content) = .ok () w) (hroot : w.initialized = true) :
    ∃ compilation module channel, compile options content = (.ok compilation, channel) ∧
      compilation.module = some module := by
  obtain ⟨hread, htags⟩ := walk_tags h hroot
  have hprintable := printable_of_tags hstrict hread htags hroot
  obtain ⟨module, v, hassemble⟩ := @assemble_ok options w hprintable
  refine ⟨⟨some module, v.channel.reports, false⟩, module, v.channel, ?_, rfl⟩
  have hmap : (some <$> assemble options).run w = .ok (some module) v := by
    rw [map_eq_pure_bind, EStateM.run, Walk.bind_ok hassemble]
    rfl
  unfold compile
  rw [hraw, if_neg Bool.false_ne_true, show (walk options content).run _ = _ from h]
  show outcome (if w.initialized then (some <$> assemble options).run w else _) = _
  rw [hroot, if_pos rfl, hmap]
  rfl

/-- A custom element whose slot gets a view with a binding, a slot with a fallback, and a tag that
may not stand where it stands. -/
def cardPage : Text :=
  "<Page xmlns:x=\"m\"><x:Card><slotContent><Label text=\"\x7b\x7b a \x7d\x7d\"/>" ++
    "</slotContent></x:Card><slot><Label/></slot><template/></Page>"

/-- Whether no tag among some events is named like a generated name. -/
def namesApart (events : List Xml.Event) : Bool :=
  events.all fun event =>
    match event with
    | .startTag _ name _ => GeneratedName.stems.all fun s => !s.isPrefixOf (Name.split name).1
    | .endTag _ _ => true

theorem unlike_of_namesApart (h : namesApart events = true) (offset : Nat) (name : Text)
    (attributes : AttributeMap) (hmem : .startTag offset name attributes ∈ events) :
    Element.Unlike name := by
  intro g _ heq
  have hname := all_eq_true.mp h _ hmem
  have hstem := all_eq_true.mp hname _ g.stem_mem_stems
  have hstarts : g.stem.isPrefixOf (Name.split name).1 = true := by
    rw [ isPrefixOf_iff_prefix, heq]
    exact prefix_append _ _
  rw [hstarts] at hstem
  cases hstem

theorem compile_names_cardPage : ∃ (compilation : Compilation) (module : Module) (w : Walk)
    (statements : List Node), (compile lenientOptions cardPage).1 = .ok compilation ∧
      compilation.module = some module ∧ module.program = .program statements ∧
      NamesPlaced (constructor .standard w.customModules w.draft.nodes) statements
        module.callbacks w.treeIndex
        (customsAlong lenientOptions (Xml.read containerName cardPage).1
          (startWalk lenientOptions cardPage)) := by
  have hapart : namesApart (Xml.read containerName cardPage).1 = true := by decide +kernel
  have hok : Walk.succeeds (walk lenientOptions cardPage (startWalk lenientOptions cardPage)) = true ∧
      (final (walk lenientOptions cardPage (startWalk lenientOptions cardPage))).initialized = true := by
    decide +kernel
  have hraw : isRaw cardPage = false := by decide +kernel
  obtain ⟨compilation, module, channel, hcompile, hmodule⟩ :=
    exists_module rfl hraw (Walk.eq_ok_of_succeeds hok.1) hok.2
  rcases compile_names rfl (unlike_of_namesApart hapart) hcompile hmodule with
    ⟨hself, _⟩ | ⟨w, statements, _, _, hstatements, hplaced⟩
  · cases hraw.symm.trans hself
  · exact ⟨compilation, module, w, statements, by rw [hcompile], hmodule, hstatements, hplaced⟩

end ViewMarkup.Document
