import ViewMarkup.Proofs.Binding.Closed
import ViewMarkup.Proofs.Script.Execution

/-!
# When bindings are applied

The functions of a view are run, on any host, with a support library that calls the function it is
passed on the view model once.

* `fires` says when a binding is to be applied, from the property that has changed and the mark on
  the view.
* `callbacks_dispatch` says that the function that applies the bindings applies just those that are
  to be applied, and that the one that follows a change of the context has all of them applied and
  listens to just the properties on which one depends.
-/

namespace ViewMarkup.Binding

open List
open Script.Env (bind_of_ne)
open Script (execAll_cons introducedIn_append exec_block_singleton exec_ifStatement)
open Script (Node Value Host Env Machine Run eval exec execAll invoke perform reach strays straysIn evalAll
  straysAll introduced introducedIn functionName?)

variable {d : BindingDescriptor} {descriptors : List BindingDescriptor}
variable {m : Machine} {env : Env} {host : Host} {value property target : Value} {name : Text}
  {e : Node} {change : Value}

/-- Whether a binding is to be applied when a property has changed, or no particular one, and the
view is marked as writing a property back. -/
def fires (property mark : Value) (d : BindingDescriptor) : Bool :=
  (property.isNullish || d.properties.any fun name => property = .string name) &&
    !(d.isTwoWay && mark = .string d.propertyName)

/-- The function of the support library that completes the view model for the function passed. -/
def completesSource : Node → Bool
  | .member (.identifier owner) (.identifier name) false false =>
    owner = runtimeName && name = "getCompleteBindingSource"
  | _ => false

/-- A machine with the support library. -/
def machine (host : Host) (passes : Value → Value)
    (functions : Text → Option (List Value → Run)) : Machine where
  host
  callsBack := completesSource
  passes
  functions

/-! ### Guards -/

theorem eval_memberNamed {object : Node} (h : eval host env object = .ok value) :
    eval host env (.memberNamed object name) = .ok (host.part value (.string name)) := by
  unfold Node.memberNamed Node.accessNamed
  split <;> rw [eval, h] <;> rfl

/-- A comparison with nothing. -/
theorem eval_eq_null (h : eval host env e = .ok value) :
    eval host env (.binary .eq e .null) = .ok (.boolean value.isNullish) := by
  simp [eval, h, bind, Except.bind, pure, Except.pure, Host.binary, Host.alike, Value.isNullish]

theorem eval_ne_null (h : eval host env e = .ok value) :
    eval host env (.binary .ne e .null) = .ok (.boolean !value.isNullish) := by
  simp [eval, h, bind, Except.bind, pure, Except.pure, Host.binary, Host.alike, Value.isNullish]

/-- The tests of a guard for properties, on top of a test that comes to a truth value. -/
theorem eval_foldl_test {test : Node} {b : Bool} (names : List Text)
    (hproperty : env "propertyName" = some property) (htest : eval host env test = .ok (.boolean b)) :
    eval host env (names.foldl (fun test name =>
        .logical .or test (.binary .strictEq (.identifier "propertyName") (.string name))) test) =
      .ok (.boolean (b || names.any fun name => property = .string name)) := by
  induction names generalizing test b with
  | nil => simpa using htest
  | cons name names ih =>
    have hsame : host.same property (.string name) = decide (property = .string name) := by
      cases property <;> rfl
    have hstep : eval host env
        (.logical .or test (.binary .strictEq (.identifier "propertyName") (.string name))) =
        .ok (.boolean (b || decide (property = .string name))) := by
      rw [eval, htest]
      cases b with
      | true => rfl
      | false => simp [bind, Except.bind, Host.truth, eval, hproperty, pure, Except.pure,
          Host.binary, hsame]
    rw [foldl_cons, ih hstep, any_cons, Bool.or_assoc]

/-- **A guard comes to whether the binding is to be applied.** -/
theorem eval_guard (hproperty : env "propertyName" = some property)
    (hview : env "view" = some target) : eval host env (guard d) =
      .ok (.boolean (fires property (host.part target (.string targetPropertyFlag)) d)) := by
  have hnull : eval host env (.binary .eq (.identifier "propertyName") .null) =
      .ok (.boolean property.isNullish) :=
    eval_eq_null (by rw [eval, hproperty])
  have htest := eval_foldl_test d.properties hproperty hnull
  unfold guard fires
  cases d.isTwoWay with
  | false =>
    rw [if_neg Bool.false_ne_true, htest]
    simp
  | true =>
    have hmark : eval host env (.memberNamed view targetPropertyFlag) =
        .ok (host.part target (.string targetPropertyFlag)) :=
      eval_memberNamed (by rw [view, eval, hview])
    generalize host.part target (.string targetPropertyFlag) = mark at hmark ⊢
    have hsame : host.same mark (.string d.propertyName) =
        decide (mark = .string d.propertyName) := by
      cases mark <;> rfl
    rw [if_pos rfl, eval, htest]
    cases property.isNullish || d.properties.any fun name => property = .string name with
    | false => rfl
    | true =>
      simp [bind, Except.bind, Host.truth, eval, hmark, pure, Except.pure, Host.binary, hsame]

/-! ### Statements of the functions -/

section

variable {host : Host} {passes : Value → Value} {functions : Text → Option (List Value → Run)}

theorem completesSource_runtimeMember (method : Text) :
    completesSource (runtimeMember method) = decide (method = "getCompleteBindingSource") := by
  unfold runtimeMember Node.memberNamed Node.accessNamed
  split
  · simp [completesSource]
  · next h =>
    rw [completesSource]
    · refine (decide_eq_false ?_).symm
      rintro rfl
      exact h (by decide +kernel)
    · nofun

theorem runtimeMember_ne_identifier (method name : Text) :
    runtimeMember method ≠ .identifier name := by
  unfold runtimeMember Node.memberNamed Node.accessNamed
  split <;> nofun

/-- A call of the support library, other than the one that runs what it is passed. -/
theorem exec_runtimeCall {method : Text} {args : List Node}
    (hmethod : method ≠ "getCompleteBindingSource")
    (h : env.Has (strays (runtimeCall method args))) :
    exec (machine host passes functions) env (statement (runtimeCall method args)) =
      .through [statement (runtimeCall method args)] := by
  rw [statement, exec, runtimeCall, Node.callOf,
    Script.perform_call (runtimeMember_ne_identifier method)
      ((completesSource_runtimeMember method).trans (decide_eq_false hmethod))]
  exact Script.reach_of_has h

/-- The call of the support library that runs what it is passed. -/
theorem exec_getCompleteSource {source : Node} (body : List Node) (h : env.Has (strays source)) :
    ∃ value, exec (machine host passes functions) env
        (.block [statement (runtimeCall "getCompleteBindingSource" [source, sourceCallback body])]) =
      exec (machine host passes functions) (env.bind viewModelName value) (.block body) := by
  have hback : (machine host passes functions).callsBack
      (runtimeMember "getCompleteBindingSource") = true :=
    (completesSource_runtimeMember _).trans (decide_eq_true rfl)
  obtain ⟨value, hvalue⟩ := @Script.perform_callback false (machine host passes functions) env _ _
    (.block body) viewModelName hback h
  refine ⟨value, ?_⟩
  rw [← hvalue, exec_block_singleton rfl, statement, exec]
  rfl

theorem introduced_apply {value : Node} : introduced (apply d value) = [] := by
  unfold apply
  split
  · rfl
  · split <;> rfl

/-- A value is applied where all names are there. -/
theorem exec_apply {value : Node} (h : env.Has (strays (apply d value))) :
    exec (machine host passes functions) env (apply d value) = .through [apply d value] := by
  unfold apply at h ⊢
  split at h
  · next hevent =>
    rw [if_pos hevent]
    exact exec_runtimeCall (by decide) h
  · next hevent =>
    rw [if_neg hevent]
    split at h
    · next hsub =>
      rw [if_pos hsub]
      exact Script.reach_of_has h
    · next hsub =>
      rw [if_neg hsub]
      exact exec_runtimeCall (by decide) h

/-- **The guarded statements of a view apply the bindings that are to be applied.** -/
theorem execAll_guarded
    (hproperty : env "propertyName" = some property) (hview : env "view" = some target)
    (h : ∀ d ∈ descriptors, env.Has (strays (apply d d.expression))) :
    execAll (machine host passes functions) env (descriptors.map fun d =>
        .ifStatement (guard d) (.block [apply d d.expression]) none) =
      .through ((descriptors.filter
        (fires property (host.part target (.string targetPropertyFlag)))).map
          fun d => apply d d.expression) := by
  induction descriptors with
  | nil => rfl
  | cons d rest ih =>
    obtain ⟨hd, hrest⟩ := forall_mem_cons.mp h
    have happly : exec (machine host passes functions) env (.block [apply d d.expression]) =
        .through [apply d d.expression] := by
      rw [exec_block_singleton introduced_apply, exec_apply hd]
    rw [map_cons, execAll_cons rfl, ih hrest,
      exec_ifStatement (eval_guard hproperty hview), happly]
    change (if fires property (host.part target _) d = true then _ else _ : Run).andThen _ = _
    by_cases hfires : fires property (host.part target (.string targetPropertyFlag)) d = true
    · rw [if_pos hfires, filter_cons_of_pos hfires]
      rfl
    · rw [if_neg hfires, filter_cons_of_neg hfires]
      rfl

/-! ### The function that applies the bindings -/

theorem declareScope_lets :
    ∀ node ∈ declareScope descriptors, ∃ name init, node = .letStatement name init := by
  intro node hnode
  unfold declareScope at hnode
  split at hnode
  · rcases mem_append.mp hnode with hnode | hnode
    · rcases mem_pair.mp hnode with rfl | rfl <;> exact ⟨_, _, rfl⟩
    · split at hnode
      · cases hnode
      · exact ⟨_, _, mem_singleton.mp hnode⟩
  · cases hnode

theorem mem_introducedIn_declareScope {x : Text} (h : x ∈ introducedIn (declareScope descriptors)) :
    isSpecial x = true := by
  unfold isSpecial
  by_cases hspecial : ∃ d ∈ descriptors, d.specialCount ≠ 0
  · rw [declareScope_eq hspecial, introducedIn_append, mem_append] at h
    rcases h with h | h
    · simp only [introducedIn, flatMap_cons, Script.introduced_letStatement,
        flatMap_nil] at h
      grind
    · split at h
      · cases h
      · simp only [introducedIn, flatMap_cons, Script.introduced_letStatement,
          flatMap_nil] at h
        grind
  · rw [declareScope_nil hspecial] at h
    cases h

/-- **The body of the function applies the bindings that are to be applied.** -/
theorem exec_updates (h : ∀ d ∈ descriptors, Confined d) (hnot : ¬ Looped descriptors)
    (hproperty : env "propertyName" = some property) (hview : env "view" = some target)
    (hothers : env.Has [viewModelName, runtimeName, "undefined"]) :
    exec (machine host passes functions) env (.block (declareScope descriptors ++
        descriptors.map fun d => .ifStatement (guard d) (.block [apply d d.expression]) none)) =
      .through ((descriptors.filter
        (fires property (host.part target (.string targetPropertyFlag)))).map
          fun d => apply d d.expression) := by
  have hguards : introducedIn (descriptors.map fun d =>
      .ifStatement (guard d) (.block [apply d d.expression]) none) = [] := by
    rw [introducedIn, flatMap_map]
    exact flatMap_eq_nil_iff.mpr fun d _ => rfl
  rw [exec, introducedIn_append, hguards, append_nil]
  have hplain : ∀ x, isSpecial x = false → x ∉ introducedIn (declareScope descriptors) := by
    intro x hx hmem
    rw [mem_introducedIn_declareScope hmem] at hx
    cases hx
  have hhidden : ∀ x, isSpecial x = false →
      env.hide (introducedIn (declareScope descriptors)) x = env x :=
    fun x hx => Script.Env.hide_of_notMem (hplain x hx)
  have hthere : ∀ x, x = viewModelName ∨ x = "view" ∨ x = runtimeName ∨ x = "undefined" →
      isSpecial x = false ∧ (env x).isSome = true := by
    rintro x (rfl | rfl | rfl | rfl)
    · exact ⟨by decide, hothers _ (by simp)⟩
    · exact ⟨by decide, by rw [hview]; rfl⟩
    · exact ⟨by decide, hothers _ (by simp)⟩
    · exact ⟨by decide, hothers _ (by simp)⟩
  -- without a key that looks into `$parents` nothing is stray in the declarations
  have hscope : (env.hide (introducedIn (declareScope descriptors))).Has
      (straysIn (declareScope descriptors)) := by
    intro x hx
    have hx' : x = viewModelName ∨ x = "view" ∨ x = runtimeName ∨ x = "undefined" := by
      rcases mem_straysIn_declareScope h hx with hx | hx | hx | hx
      · exact .inl hx
      · exact .inr (.inl hx)
      · exact .inr (.inr (.inl hx))
      · exact absurd hx.2 hnot
    obtain ⟨hspecial, hsome⟩ := hthere x hx'
    rw [hhidden x hspecial]
    exact hsome
  obtain ⟨after, hexec, hnew, hold⟩ := @Script.execAll_lets (machine host passes functions) _
    (declareScope descriptors) declareScope_lets hscope
  have hkept : ∀ x, isSpecial x = false → after x = env x :=
    fun x hx => (hold x (hplain x hx)).trans (hhidden x hx)
  rw [hexec]
  apply execAll_guarded
  · exact (hkept _ (by decide)).trans hproperty
  · exact (hkept _ (by decide)).trans hview
  · intro d hd x hx
    have hname : (x = viewModelName ∨ x = "view" ∨ x = runtimeName ∨ x = "undefined") ∨
        x ∈ introducedIn (declareScope descriptors) := by
      rcases mem_strays_apply d hx with hx | hx | hx
      · exact .inl (.inr (.inr (.inl hx)))
      · exact .inl (.inr (.inl hx))
      · rcases (h d hd).expression x hx with (hx | hx) | hx
        · exact .inl (.inr (.inr (.inl hx)))
        · exact .inl (.inr (.inr (.inr hx)))
        · exact (declareScope_introduces hd (h d hd) hx).imp_left .inl
    rcases hname with hx | hx
    · obtain ⟨hspecial, hsome⟩ := hthere x hx
      rw [hkept x hspecial]
      exact hsome
    · exact hnew x hx

/-- A parameter that is not given counts as none. -/
theorem fires_default {mark : Value} :
    fires (if property = .undefined then .null else property) mark = fires property mark := by
  funext d
  cases property <;> simp [fires, Value.isNullish]

/-- **The function applies the bindings that are to be applied.** -/
theorem invoke_updateFunction (k : Int) (h : ∀ d ∈ descriptors, Confined d)
    (hnot : ¬ Looped descriptors) (henv : env.Has [runtimeName, "undefined"])
    (target context : Value) (rest : List Value) :
    invoke (machine host passes functions) env (updateFunction k descriptors)
        (target :: context :: rest) =
      .through ((descriptors.filter (fires (rest.headD .undefined)
        (host.part target (.string targetPropertyFlag)))).map fun d => apply d d.expression) := by
  generalize hgiven : rest.headD .undefined = property
  -- the names that the parameters get
  have hparams : Script.bindParams host env [view, .identifier "bindingContext",
      .assignmentPattern (.identifier "propertyName") .null] (target :: context :: rest) =
      ((env.bind "view" target).bind "bindingContext" context).bind "propertyName"
        (if property = .undefined then .null else property) := by
    rw [← hgiven]
    rfl
  obtain ⟨value, hrun⟩ := @exec_getCompleteSource
    (((env.bind "view" target).bind "bindingContext" context).bind "propertyName"
      (if property = .undefined then .null else property)) host passes functions
    (.identifier "bindingContext") (declareScope descriptors ++ descriptors.map fun d =>
      .ifStatement (guard d) (.block [apply d d.expression]) none)
    (fun x hx => by rw [mem_singleton.mp hx]; rfl)
  rw [← fires_default, updateFunction, invoke]
  refine (congrArg (exec _ · _) hparams).trans (hrun.trans ?_)
  apply exec_updates h hnot rfl rfl
  intro x hx
  rcases mem_cons.mp hx with rfl | hx
  · rfl
  · have hne : x ≠ viewModelName ∧ x ≠ "propertyName" ∧ x ≠ "bindingContext" ∧ x ≠ "view" := by
      rcases mem_pair.mp hx with rfl | rfl <;> decide
    rw [bind_of_ne hne.1, bind_of_ne hne.2.1, bind_of_ne hne.2.2.1,
      bind_of_ne hne.2.2.2]
    exact henv x hx

/-! ### The function that follows a change of the context -/

/-- The statement that detaches a view from its old context. -/
def detach : Node :=
  statement (runtimeCall "removeBindingSourceListeners" [view, .memberNamed args "oldValue"])

/-- The statement that has the bindings of a view follow a property. -/
def listen (k : Int) (name : Text) : Node :=
  statement (runtimeCall "addBindingSourceListener"
    [view, .memberNamed args "value", .string name, .identifier (updateName k)])

/-- What the function does once the view is known. -/
def following (k : Int) (descriptors : List BindingDescriptor) : List Node :=
  [.ifStatement (.binary .ne (.memberNamed args "oldValue") .null) (.block [detach]) none,
   .ifStatement (.binary .eq (.memberNamed args "value") .null)
     (.block (descriptors.map unset ++ [.returnStatement none])) none,
   statement (.callOf (.identifier (updateName k)) [view, .memberNamed args "value"])] ++
  (distinct (descriptors.flatMap (·.properties))).map (listen k)

section

variable (k : Int) (descriptors : List BindingDescriptor)

theorem contextChangeFunction_eq :
    contextChangeFunction k descriptors = .function (.identifier (contextChangeName k)) [args]
      (.block (.letStatement "view" (.memberNamed args "object") :: following k descriptors)) :=
  rfl

theorem introducedIn_following : introducedIn (following k descriptors) = [] := by
  rw [following, introducedIn_append]
  refine append_eq_nil_iff.mpr ⟨rfl, ?_⟩
  rw [introducedIn, flatMap_map]
  exact flatMap_eq_nil_iff.mpr fun name _ => rfl

end

/-- Some bindings are taken back and the function is left. -/
theorem exec_unset (hview : env "view" ≠ none) (h : env.Has [runtimeName, "undefined"]) :
    exec (machine host passes functions) env
        (.block (descriptors.map unset ++ [.returnStatement none])) =
      ⟨descriptors.map unset, .returned⟩ := by
  have hplain : ∀ node ∈ descriptors.map unset, introduced node = [] ∧
      exec (machine host passes functions) env node = .through [node] := by
    intro node hnode
    obtain ⟨d, _, rfl⟩ := mem_map.mp hnode
    refine ⟨introduced_apply, exec_apply fun x hx => ?_⟩
    rcases mem_strays_apply d hx with rfl | rfl | hx
    · exact h _ (by simp)
    · exact Option.isSome_iff_ne_none.mpr hview
    · split at hx
      · cases hx
      · rw [mem_singleton.mp hx]
        exact h _ (by simp)
  have hnone : introducedIn (descriptors.map unset ++ [.returnStatement none]) = [] := by
    rw [introducedIn_append, introducedIn]
    refine append_eq_nil_iff.mpr ⟨flatMap_eq_nil_iff.mpr fun node hnode => ?_, rfl⟩
    exact (hplain node hnode).1
  rw [exec, hnone, Script.Env.hide_nil, Script.execAll_through _ _ hplain, execAll_cons rfl,
    exec, Run.through_andThen]
  exact congrArg (Run.mk · _) (append_nil _)

section

variable {update : List Value → Run} (k : Int) (hupdate : functions (updateName k) = some update)
include hupdate

theorem execAll_following (hview : env "view" = some target)
    (hargs : env "args" = some change) (henv : env.Has [runtimeName, "undefined", updateName k]) :
    execAll (machine host passes functions) env (following k descriptors) =
      (if (host.part change (.string "oldValue")).isNullish then Run.idle
        else .through [detach]).andThen
      ((if (host.part change (.string "value")).isNullish then ⟨descriptors.map unset, .returned⟩
        else Run.idle).andThen
      ((update [target, host.part change (.string "value")]).andThen
        (.through ((distinct (descriptors.flatMap (·.properties))).map (listen k))))) := by
  have hpart : ∀ name, eval host env (.memberNamed args name) =
      .ok (host.part change (.string name)) :=
    fun name => eval_memberNamed (by rw [args, eval, hargs])
  have hthere : ∀ x, x = runtimeName ∨ x = "view" ∨ x = "args" ∨ x = updateName k →
      (env x).isSome = true := by
    rintro x (rfl | rfl | rfl | rfl)
    · exact henv _ (by simp)
    · rw [hview]
      rfl
    · rw [hargs]
      rfl
    · exact henv _ (by simp)
  have hdetach : exec (machine host passes functions) env detach = .through [detach] :=
    exec_runtimeCall (by decide) fun x hx => hthere x (by
      simp only [strays_runtimeCall, straysAll, strays_view, Script.strays_memberNamed, strays_args,
        mem_cons, mem_append, not_mem_nil, or_false] at hx
      grind)
  have hlisten : ∀ node ∈ (distinct (descriptors.flatMap (·.properties))).map (listen k),
      introduced node = [] ∧ exec (machine host passes functions) env node = .through [node] := by
    intro node hnode
    obtain ⟨name, _, rfl⟩ := mem_map.mp hnode
    refine ⟨rfl, exec_runtimeCall (by decide) fun x hx => hthere x ?_⟩
    simp only [strays_runtimeCall, straysAll, strays_view, Script.strays_memberNamed, strays_args,
      strays, mem_cons, mem_append, not_mem_nil, or_false, false_or] at hx
    grind
  have hrow := Script.execAll_through _ [] hlisten
  rw [append_nil, execAll, Run.andThen_idle] at hrow
  have hcall : exec (machine host passes functions) env
      (statement (.callOf (.identifier (updateName k)) [view, .memberNamed args "value"])) =
      update [target, host.part change (.string "value")] := by
    refine Script.perform_function ?_ hupdate ?_
    · intro source params body heq
      unfold Node.memberNamed Node.accessNamed at heq
      split at heq <;> simp at heq
    · change evalAll host env _ = _
      simp [evalAll, view, eval, hview, hpart, bind, Except.bind, pure, Except.pure]
  have hold := @exec_ifStatement (machine host passes functions) env _ (.block [detach]) _
    (eval_ne_null (hpart "oldValue"))
  have hnew := @exec_ifStatement (machine host passes functions) env _
    (.block (descriptors.map unset ++ [.returnStatement none])) _ (eval_eq_null (hpart "value"))
  rw [exec_block_singleton rfl, hdetach] at hold
  rw [exec_unset (by rw [hview]; simp) (henv.mono (by grind))] at hnew
  rw [following, cons_append, cons_append, cons_append, nil_append,
    execAll_cons rfl, execAll_cons rfl, execAll_cons rfl, hold, hnew, hcall,
    hrow]
  cases (host.part change (.string "oldValue")).isNullish <;> rfl

/-- **The function detaches the view, and takes back the bindings or has them applied and follows the
properties.** -/
theorem invoke_contextChangeFunction (henv : env.Has [runtimeName, "undefined", updateName k]) :
    invoke (machine host passes functions) env (contextChangeFunction k descriptors) [change] =
      (if (host.part change (.string "oldValue")).isNullish then Run.idle
        else .through [detach]).andThen
      ((if (host.part change (.string "value")).isNullish then ⟨descriptors.map unset, .returned⟩
        else Run.idle).andThen
      ((update [host.part change (.string "object"), host.part change (.string "value")]).andThen
        (.through ((distinct (descriptors.flatMap (·.properties))).map (listen k))))) := by
  have hother : ∀ x : Text, x ∈ [runtimeName, Text.ofString "undefined", updateName k] →
      x ≠ "view" ∧ x ≠ "args" := by
    intro x hx
    simp only [mem_cons, not_mem_nil, or_false] at hx
    rcases hx with rfl | rfl | rfl
    · decide
    · decide
    · exact ⟨nofun, nofun⟩
  have hnames : introducedIn (.letStatement "view" (.memberNamed args "object") ::
      following k descriptors) = [Text.ofString "view"] :=
    congrArg (cons _) (introducedIn_following k descriptors)
  rw [contextChangeFunction_eq, invoke, exec, hnames, Script.execAll_let (eval_memberNamed rfl)]
  apply execAll_following k hupdate rfl rfl
  intro x hx
  obtain ⟨hview, hargs⟩ := hother x hx
  rw [bind_of_ne hview, Script.Env.hide_of_notMem (by simpa using hview)]
  refine (congrArg Option.isSome (bind_of_ne hargs)).trans (henv x hx)

end

end

/-! ### The functions of a view -/

theorem distinct_nodup {names : List Text} : (distinct names).Nodup := by
  induction names using reverseRecOn with
  | nil => exact nodup_nil
  | append_singleton names name ih =>
    rw [distinct, foldl_append, ← distinct, foldl_cons, foldl_nil, insertName]
    split
    · exact ih
    · next h =>
      rw [← concat_eq_append]
      exact ih.concat (by simpa using h)

/-- A property on which some binding of a view depends. -/
theorem mem_properties_iff : name ∈ distinct (descriptors.flatMap (·.properties)) ↔
      ∃ d ∈ descriptors, fires (.string name) .null d = true := by
  rw [distinct_eq_eraseDups, mem_eraseDups, mem_flatMap]
  simp [fires, Value.isNullish]

/-- The function of a name among declarations. -/
def functionNamed? (declarations : List Node) (name : Text) : Option Node :=
  declarations.find? fun f => functionName? f = some name

/-- What a call of a declared function does, where a function that it calls itself calls no other. -/
def callNamed (host : Host) (passes : Value → Value) (env : Env) (declarations : List Node)
    (name : Text) (values : List Value) : Run :=
  let others := machine host passes fun name =>
    (functionNamed? declarations name).map (invoke (machine host passes fun _ => none) env)
  match functionNamed? declarations name with
  | some function => invoke others env function values
  | none => .idle

/-- The mark of a view that names the property being written back. -/
def markOf (host : Host) (target : Value) : Value :=
  host.part target (.string targetPropertyFlag)

/-- **The functions of a view fire exactly on what its bindings depend on.**  The function that applies
the bindings applies those that are to be applied, in their order.  The function that follows a change
of the context detaches the view from an old context.  If there is a new one, it has the bindings
applied once for no particular property, and it listens to just the properties for which some binding
is to be applied, once to each; if there is none, it takes back each binding and does nothing else. -/
theorem callbacks_dispatch {k : Int} {element : Text} {c : Callbacks} {env : Env}
    (h : ∀ d ∈ descriptors, ∃ item, describe item = .ok d) (hsome : descriptors ≠ [])
    (hnot : ¬ Looped descriptors) (hc : callbacks? k element descriptors = some c)
    (henv : env.Has [runtimeName, "undefined", updateName k]) (host : Host)
    (passes : Value → Value) : (∀ target context property,
      callNamed host passes env c.declarations (updateName k) [target, context, property] =
        .through ((descriptors.filter (fires property (markOf host target))).map
          fun d => apply d d.expression)) ∧ ∃ names : List Text, names.Nodup ∧
      (∀ name, name ∈ names ↔ ∃ d ∈ descriptors, fires (.string name) .null d = true) ∧
      ∀ change,
        callNamed host passes env c.declarations (contextChangeName k) [change] =
          (Run.through (if (host.part change (.string "oldValue")).isNullish then []
            else [detach])).andThen
          (if (host.part change (.string "value")).isNullish then
            ⟨descriptors.map unset, .returned⟩
          else
            .through ((descriptors.filter
              (fires .null (markOf host (host.part change (.string "object"))))).map
                (fun d => apply d d.expression) ++ names.map (listen k))) := by
  have hconfined : ∀ d ∈ descriptors, Confined d := by
    intro d hd
    obtain ⟨item, hitem⟩ := h d hd
    exact describe_confined hitem
  obtain ⟨writers, hdeclarations⟩ : ∃ writers, c.declarations =
      updateFunction k descriptors :: contextChangeFunction k descriptors :: writers := by
    rw [callbacks?, if_neg (by simpa using hsome)] at hc
    obtain ⟨twoWay, _, hc⟩ := Option.bind_eq_some_iff.mp hc
    cases hc
    exact ⟨_, rfl⟩
  have hupdate := fun functions => @invoke_updateFunction descriptors env host passes functions k
    hconfined hnot (henv.mono (by grind))
  have hfirst : functionNamed? c.declarations (updateName k) =
      some (updateFunction k descriptors) := by
    rw [hdeclarations]
    exact find?_cons_of_pos (decide_eq_true rfl)
  have hsecond : functionNamed? c.declarations (contextChangeName k) =
      some (contextChangeFunction k descriptors) := by
    rw [hdeclarations]
    refine (find?_cons_of_neg ?_).trans (find?_cons_of_pos (decide_eq_true rfl))
    exact fun heq => nomatch Option.some.inj (of_decide_eq_true heq)
  refine ⟨fun target context property => ?_,
    distinct (descriptors.flatMap fun d => d.properties), distinct_nodup,
    fun name => mem_properties_iff, fun change => ?_⟩
  · rw [callNamed, hfirst]
    exact hupdate _ target context [property]
  · rw [callNamed, hsecond]
    refine (invoke_contextChangeFunction k (congrArg (Option.map _) hfirst) henv).trans ?_
    have hnone : ∀ mark, fires (([] : List Value).headD .undefined) mark = fires .null mark :=
      fun mark => fires_default.symm
    rw [hupdate, hnone]
    cases (host.part change (.string "oldValue")).isNullish <;>
      cases (host.part change (.string "value")).isNullish <;> rfl

/-- A host on which parts are named by their keys and every call comes to nothing. -/
def plainHost : Host where
  isTrue _ := true
  equal _ _ := false
  part _ key := key
  result _ _ := .undefined

/-- The names that generated functions find around them. -/
def plainEnv (k : Int) : Env := fun x =>
  if x = runtimeName ∨ x = "undefined" ∨ x = updateName k then some (.other 0) else none

/-- A binding on two properties and a parent, the second of which has changed. -/
theorem callbacks_dispatch_parent :
    ∃ d c, describe (boundText "\x7b\x7b first + last + $parents.Page.title \x7d\x7d") = .ok d ∧
      callbacks? 0 "el0" [d] = some c ∧ ¬ Looped [d] ∧
      callNamed plainHost id (plainEnv 0) c.declarations (updateName 0)
        [.other 1, .other 2, .string "last"] = .through [apply d d.expression] ∧
      callNamed plainHost id (plainEnv 0) c.declarations (updateName 0)
        [.other 1, .other 2, .string "title"] = .through [] := by
  obtain ⟨d, c, hdescribe, hc, hd⟩ := @exists_alone
    "\x7b\x7b first + last + $parents.Page.title \x7d\x7d"
    (fun d _ => d.properties = [Text.ofString "first", Text.ofString "last"] && !d.isTwoWay &&
      !(straysAll d.parentKeys).contains parentsName) (by decide +kernel)
  simp only [Bool.and_eq_true, decide_eq_true_eq, Bool.not_eq_true'] at hd
  obtain ⟨⟨hproperties, hway⟩, hkeys⟩ := hd
  have hnot : ¬ Looped [d] := by
    rintro ⟨other, hother, key, hkey, hparents⟩
    rw [mem_singleton.mp hother] at hkey
    rw [contains_iff_mem.mpr (Script.mem_straysAll.mpr ⟨key, hkey, hparents⟩)] at hkeys
    cases hkeys
  have henv : (plainEnv 0).Has [runtimeName, "undefined", updateName 0] := by
    unfold Script.Env.Has
    decide
  obtain ⟨hupdate, _⟩ := callbacks_dispatch (forall_mem_singleton.mpr ⟨_, hdescribe⟩)
    (cons_ne_nil d []) hnot hc henv plainHost id
  have hfires : ∀ name : Text, fires (.string name) (markOf plainHost (.other 1)) d =
      decide (name = "first" ∨ name = "last") := by
    intro name
    simp [fires, hproperties, hway, Value.isNullish]
  refine ⟨d, c, hdescribe, hc, hnot, ?_, ?_⟩
  · rw [hupdate, filter_cons_of_pos ((hfires _).trans (by decide))]
    rfl
  · rw [hupdate, filter_cons_of_neg (by rw [hfires]; decide)]
    rfl

/-- **A key that looks into `$parents` keeps every binding of the view from being applied.** -/
theorem callbacks_dispatch_looped :
    ∃ d c, describe (boundText "\x7b\x7b $parents[$parents.A.x].y \x7d\x7d") = .ok d ∧
      callbacks? 0 "el0" [d] = some c ∧ fires .null (markOf plainHost (.other 1)) d = true ∧
      (callNamed plainHost id (plainEnv 0) c.declarations (updateName 0)
        [.other 1, .other 2, .null]).executed = [] ∧
      (callNamed plainHost id (plainEnv 0) c.declarations (updateName 0)
        [.other 1, .other 2, .null]).ending = .missing parentsName := by
  obtain ⟨d, c, hdescribe, hc, hrun⟩ := @exists_alone
    "\x7b\x7b $parents[$parents.A.x].y \x7d\x7d"
    (fun d c =>
      let run := callNamed plainHost id (plainEnv 0) c.declarations (updateName 0)
        [.other 1, .other 2, .null]
      fires .null (markOf plainHost (.other 1)) d &&
        (run.executed.isEmpty && run.ending = .missing parentsName)) (by decide +kernel)
  rw [Bool.and_eq_true, Bool.and_eq_true, List.isEmpty_iff, decide_eq_true_eq] at hrun
  exact ⟨d, c, hdescribe, hc, hrun⟩

end ViewMarkup.Binding
