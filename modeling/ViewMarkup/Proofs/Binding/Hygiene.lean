import ViewMarkup.Proofs.Binding.Closed
import ViewMarkup.Proofs.Walk.Names

/-!
# The names in the functions of bindings

The expression of a binding is moved under the view model, so whatever names it is written with, it
does not refer to a generated variable or function.  The functions around it are closed, so they do
not either.

* `callbacks?_serves`: the functions of a view are declared once each, and they are those which its
  code and the functions themselves refer to.
-/

namespace ViewMarkup.Binding

open List
open GeneratedName (targetChange targetChangeName_eq)
open Script (Node strays straysAll straysIn straysOption declared declaredAll introduced introducedIn
  mem_straysIn_append mem_ungoverned functionNames)

variable {g : GeneratedName} {k : Int} {d : BindingDescriptor}
  {descriptors : List BindingDescriptor} {position : Nat} {node : Node} {c : Callbacks}

/-! ### Functions -/

/-- No generated name is one that is there for all generated code. -/
theorem not_isLibrary : ¬ IsLibrary g.text := by
  simp [IsLibrary]

/-- The function that applies the bindings refers to no generated name. -/
theorem updateFunction_clean (h : ∀ d ∈ descriptors, Confined d) :
    g.text ∉ strays (updateFunction k descriptors) := by
  intro hg
  rcases mem_strays_updateFunction k h hg with hg | ⟨hg, -⟩
  · exact not_isLibrary hg
  · simp at hg

/-- The function that follows a change of the context refers to the one that applies the bindings,
and to no other generated name. -/
theorem strays_contextChangeFunction :
    g.text ∈ strays (contextChangeFunction k descriptors) ↔ g = .update k := by
  constructor
  · intro hg
    rcases mem_strays_contextChangeFunction k hg with hg | hg
    · exact absurd hg not_isLibrary
    · exact GeneratedName.text_injective hg
  · rintro rfl
    simp [contextChangeFunction, strays, mem_ungoverned, mem_straysIn_append, straysIn, straysAll,
      straysOption, Script.boundAll, GeneratedName.updateName_eq]

/-- A function that writes a change back refers to no generated name. -/
theorem targetChangeFunction?_clean (h : Confined d)
    (hnode : targetChangeFunction? k position d = some node) : g.text ∉ strays node := by
  intro hg
  rcases mem_strays_targetChangeFunction? h hnode hg with hg | ⟨hg, -⟩
  · exact not_isLibrary hg
  · simp at hg

/-! ### All functions of a view -/

theorem functionName?_targetChange (hnode : targetChangeFunction? k position d = some node) :
    Script.functionName? node = some (targetChange k position).text := by
  obtain ⟨_, _, rfl⟩ := Option.map_eq_some_iff.mp hnode
  rw [← targetChangeName_eq]
  rfl

/-- The functions of a view are declared once each under the given names, and these are the names
that the statements which subscribe them and the functions themselves refer to. -/
structure Serves (c : Callbacks) (k : Int) (names : List GeneratedName) : Prop where
  nodup : names.Nodup
  functions : ∀ g ∈ names, g.isFunction = true ∧ g.index = k
  declarations : functionNames c.declarations = names.map GeneratedName.text
  used : ∀ g ∈ names, g.text ∈ straysAll c.attach ∨ g.text ∈ straysAll c.declarations
  within : ∀ g : GeneratedName, g.text ∈ straysAll c.declarations → g ∈ names
  selfless : ∀ node ∈ c.declarations, Script.Selfless node
  attached : ∀ g : GeneratedName, g.text ∈ straysAll c.attach → g = .element k ∨ g ∈ names
  bare : declaredAll c.attach = [] ∧ ∀ node ∈ c.attach, introduced node = []

theorem serves_nothing : Serves ⟨[], []⟩ k [] :=
  ⟨nodup_nil, nofun, rfl, nofun, nofun, nofun, nofun, rfl, nofun⟩

theorem strays_subscribe {event : Text} (g' : GeneratedName) :
    g.text ∈ strays (subscribe (GeneratedName.element k).text event g'.text) ↔
      g = .element k ∨ g = g' := by
  simp [subscribe, straysAll, strays]

/-- The functions for two-way bindings are numbered. -/
theorem targetCallbacks?_serves (h : ∀ d ∈ descriptors, Confined d)
    (hc : targetCallbacks? k (GeneratedName.element k).text position descriptors = some c) :
    Serves c k ((range' position descriptors.length).map (.targetChange k)) ∧
      ∀ g : GeneratedName, g.text ∉ straysAll c.declarations := by
  induction descriptors generalizing position c with
  | nil =>
    cases hc
    exact ⟨serves_nothing, fun _ => nofun⟩
  | cons d rest ih =>
    obtain ⟨hd, hrest⟩ := forall_mem_cons.mp h
    obtain ⟨declaration, hdeclaration, hc⟩ := Option.bind_eq_some_iff.mp hc
    obtain ⟨following, hfollowing, hc⟩ := Option.bind_eq_some_iff.mp hc
    cases hc
    obtain ⟨hserves, hclean⟩ := ih hrest hfollowing
    have hnone : ∀ g : GeneratedName, g.text ∉ straysAll (declaration :: following.declarations) := by
      intro g hg
      rcases mem_append.mp hg with hg | hg
      · exact targetChangeFunction?_clean hd hdeclaration hg
      · exact hclean g hg
    refine ⟨⟨?_, ?_, ?_, ?_, ?_, ?_, ?_, ?_, ?_⟩, hnone⟩
    · exact List.Nodup.map (fun _ _ heq => (targetChange.inj heq).2)
        nodup_range'
    · intro g hg
      obtain ⟨_, _, rfl⟩ := mem_map.mp hg
      exact ⟨rfl, rfl⟩
    · simp only [functionNames, filterMap_cons, functionName?_targetChange hdeclaration,
        length_cons, range'_succ, map_cons]
      exact congrArg _ hserves.declarations
    · intro g hg
      rw [length_cons, range'_succ, map_cons, mem_cons] at hg
      refine .inl (mem_append.mpr ?_)
      rcases hg with rfl | hg
      · refine .inl ?_
        rw [targetChangeName_eq, strays_subscribe]
        exact .inr rfl
      · exact .inr ((hserves.used g hg).resolve_right (hclean g))
    · exact fun g hg => absurd hg (hnone g)
    · refine forall_mem_cons.mpr ⟨fun name hname => ?_, hserves.selfless⟩
      cases (functionName?_targetChange hdeclaration).symm.trans hname
      exact targetChangeFunction?_clean hd hdeclaration
    · intro g hg
      rw [length_cons, range'_succ, map_cons, mem_cons]
      rcases mem_append.mp hg with hg | hg
      · rw [targetChangeName_eq, strays_subscribe] at hg
        exact hg.imp_right .inl
      · exact (hserves.attached g hg).imp_right .inr
    · simp [declaredAll, declared, subscribe, hserves.bare.1]
    · exact forall_mem_cons.mpr ⟨rfl, hserves.bare.2⟩

/-- **The functions of a view are those that are referred to**, and they are declared once each. -/
theorem callbacks?_serves (h : ∀ d ∈ descriptors, Confined d)
    (hc : callbacks? k (GeneratedName.element k).text descriptors = some c) :
    ∃ names, Serves c k names := by
  unfold callbacks? at hc
  split at hc
  · cases hc
    exact ⟨[], serves_nothing⟩
  · obtain ⟨twoWay, htwoWay, hc⟩ := Option.bind_eq_some_iff.mp hc
    cases hc
    obtain ⟨hserves, hclean⟩ := targetCallbacks?_serves
      (fun d hd => h d (mem_of_mem_filter hd)) htwoWay
    generalize hnames : (range' 0 _).map (targetChange k) = names at hserves
    have hnew : ∀ g ∈ names, ∃ position, g = .targetChange k position := by
      rw [← hnames]
      rintro g hg
      obtain ⟨position, _, rfl⟩ := mem_map.mp hg
      exact ⟨position, rfl⟩
    have hstrays : ∀ g : GeneratedName, g.text ∈ straysAll (updateFunction k descriptors ::
        contextChangeFunction k descriptors :: twoWay.declarations) ↔ g = .update k := by
      intro g
      simp only [straysAll, mem_append, updateFunction_clean h, hclean g, or_false, false_or,
        strays_contextChangeFunction]
    refine ⟨.update k :: .contextChange k :: names, ?_, ?_, ?_, ?_, ?_, ?_, ?_, ?_, ?_⟩
    · refine nodup_cons.mpr ⟨?_, nodup_cons.mpr ⟨?_, hserves.nodup⟩⟩
      · intro hg
        rcases mem_cons.mp hg with hg | hg
        · cases hg
        · obtain ⟨_, hg⟩ := hnew _ hg
          cases hg
      · intro hg
        obtain ⟨_, hg⟩ := hnew _ hg
        cases hg
    · exact forall_mem_cons.mpr ⟨⟨rfl, rfl⟩,
        forall_mem_cons.mpr ⟨⟨rfl, rfl⟩, hserves.functions⟩⟩
    · exact congrArg (fun rest => _ :: _ :: rest) hserves.declarations
    · intro g hg
      rcases mem_cons.mp hg with rfl | hg
      · exact .inr ((hstrays _).mpr rfl)
      · refine .inl (mem_append.mpr ?_)
        rcases mem_cons.mp hg with rfl | hg
        · exact .inl ((strays_subscribe (.contextChange k)).mpr (.inr rfl))
        · exact .inr ((hserves.used g hg).resolve_right (hclean g))
    · rintro g hg
      rw [(hstrays g).mp hg]
      exact mem_cons_self
    · refine forall_mem_cons.mpr ⟨fun name hname => ?_,
        forall_mem_cons.mpr ⟨fun name hname => ?_, hserves.selfless⟩⟩
      · have hself : (GeneratedName.update k).text = name := Option.some.inj hname
        rw [← hself]
        exact updateFunction_clean h
      · have hself : (GeneratedName.contextChange k).text = name := Option.some.inj hname
        rw [← hself, strays_contextChangeFunction]
        rintro ⟨⟩
    · intro g hg
      rcases mem_append.mp hg with hg | hg
      · refine ((strays_subscribe (.contextChange k)).mp hg).imp_right fun heq => ?_
        rw [heq]
        exact mem_cons_of_mem _ mem_cons_self
      · exact (hserves.attached g hg).imp_right fun hg =>
          mem_cons_of_mem _ (mem_cons_of_mem _ hg)
    · simp [declaredAll, declared, subscribe, hserves.bare.1]
    · exact forall_mem_cons.mpr ⟨rfl, hserves.bare.2⟩

end ViewMarkup.Binding
