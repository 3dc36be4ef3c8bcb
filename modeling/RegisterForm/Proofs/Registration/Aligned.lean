import RegisterForm.Proofs.Fresh.Module
/-!
# Alignment of dependencies and setters

The dependencies of a registered module and its setters go side by side: the setter of a module
serves all statements that name it, in source order, and no others. A module that a statement holds
is kept in a variable of the registered function, and its own setter puts it there.
-/
namespace RegisterForm
open Lowering

/-- The statements of a file that name other modules, in source order. -/
def SourceFile.dependences (file : SourceFile) : List Dependence :=
  file.statements.filterMap Stmt.dependence?

/-- The variable that a statement assigns. -/
def Stmt.assigned? : Stmt → Option String
  | .expr (.assign _ (.ident x) _) => some x.name
  | _ => none

/-- The statements of a function expression. -/
def Expr.statements : Expr → List Stmt
  | .function f => f.body
  | _ => []

/-- Whether a statement holds the module that it names. -/
def Dependence.keeps (d : Dependence) : Bool :=
  match d.form with
  | .importing clause => clause.isSome
  | .equals _ _ => true
  | .exporting _ => false

/-! ## Lists -/

section lists
variable {α β : Type}

/-- Of a list without repeats only one element may count. -/
theorem flatMap_eq_single {as : List α} {a : α} {f : α → List β} (hnodup : as.Nodup) (ha : a ∈ as)
    (h : ∀ b ∈ as, b ≠ a → f b = []) : as.flatMap f = f a := by
  obtain ⟨before, after, rfl⟩ := List.append_of_mem ha
  have hnot := List.nodup_middle.mp hnodup
  obtain ⟨ha, -⟩ := List.nodup_cons.mp hnot
  have hbefore : before.flatMap f = [] := by
    refine List.flatMap_eq_nil_iff.mpr fun b hb => h b (List.mem_append_left _ hb) ?_
    rintro rfl
    exact ha (List.mem_append_left _ hb)
  have hafter : after.flatMap f = [] := by
    refine List.flatMap_eq_nil_iff.mpr fun b hb =>
      h b (List.mem_append_right _ (List.mem_cons_of_mem _ hb)) ?_
    rintro rfl
    exact ha (List.mem_append_right _ hb)
  rw [List.flatMap_append, List.flatMap_cons, hbefore, hafter, List.nil_append, List.append_nil]

end lists

/-! ## Setters -/

namespace Setting
variable {s : Setting}

/-- The setter of a module: it serves the statements with the module as its parameter. -/
def setterOf (s : Setting) (star : Option String) (parameter : String) (uses : List Dependence) :
    Expr :=
  .functionOf none [.ofName parameter] (uses.flatMap (s.serve star parameter))

/-- Each module has its setter, made from the statements that are filed under it. -/
theorem setters_eq (s : Setting) (star : Option String) (filed : String → List Dependence) :
    ∀ (groups : List Dependency) (h : Hoisting), (∀ group ∈ groups, group.uses = filed group.name) →
      ∃ parameters, parameters.length = groups.length ∧ (s.setters star groups h).1 =
        List.zipWith (fun name parameter => s.setterOf star parameter (filed name))
          (groups.map (·.name)) parameters
  | [], _, _ => ⟨[], rfl, rfl⟩
  | group :: groups, h, hfiled => by
    obtain ⟨huses, hrest⟩ := List.forall_mem_cons.mp hfiled
    obtain ⟨parameters, hlength, hsetters⟩ :=
      setters_eq s star filed groups (s.setter star group h).2 hrest
    set parameter := ((s.parameterBase group.uses h).2.unique
      (s.parameterBase group.uses h).1).1
    refine ⟨parameter :: parameters, congrArg (· + 1) hlength, ?_⟩
    rw [setters, List.map_cons, List.zipWith_cons_cons, ← hsetters, ← huses]
    rfl

theorem assigned?_publishAll (ps : List Property) :
    ∀ st ∈ s.publishAll ps, st.assigned? = none := by
  intro st hst
  unfold publishAll at hst
  split at hst
  · cases hst
  · obtain rfl := List.mem_singleton.mp hst
    rfl

/-- A setter assigns the variables that keep its module, and nothing else. -/
theorem filter_serve (star : Option String) (parameter holder : String) (d : Dependence) :
    (s.serve star parameter d).filter (·.assigned? = some holder) =
      ((s.keptNames d).filter (· = holder)).map (keep · parameter) := by
  have hnone : ∀ sts : List Stmt, (∀ st ∈ sts, st.assigned? = none) →
      sts.filter (·.assigned? = some holder) = [] := by
    intro sts hsts
    refine List.filter_eq_nil_iff.mpr fun st hst => ?_
    simp [hsts st hst]
  have hkeep : ∀ names : List String, (names.map (keep · parameter)).filter
      (·.assigned? = some holder) = (names.filter (· = holder)).map (keep · parameter) := by
    intro names
    rw [List.filter_map]
    congr 1
    refine List.filter_congr fun name _ => ?_
    simp [keep, Stmt.assigned?, Expr.assignName, Expr.assignTo, Ident.synthetic]
  unfold serve keptNames
  cases hform : d.form with
  | importing clause =>
    cases clause with
    | none => rfl
    | some clause =>
      dsimp only
      rw [List.filter_append, hkeep, hnone _ (assigned?_publishAll _), List.append_nil]
  | equals name isExported =>
    have hpublish : ∀ st ∈ (if isExported then
        [Stmt.expr (s.publish name.name (.ofName parameter))] else []), st.assigned? = none := by
      intro st hst
      split at hst
      · obtain rfl := List.mem_singleton.mp hst
        rfl
      · cases hst
    dsimp only
    rw [List.cons_append, ← List.singleton_append, List.filter_append, List.filter_append,
      hnone _ hpublish, hnone _ (assigned?_publishAll _), List.append_nil, List.append_nil]
    exact hkeep [name.name]
  | exporting clause =>
    cases clause with
    | none =>
      refine hnone _ fun st hst => ?_
      obtain ⟨helper, -, rfl⟩ := List.mem_map.mp hst
      rfl
    | some clause =>
      cases clause with
      | named specifiers => exact hnone _ (assigned?_publishAll _)
      | star x => rfl

end Setting

/-! ## Holders -/

/-- An entry is the holder of one of the statements. -/
theorem mem_holdersOf {uses : List Dependence} {h : Hoisting} {entry : NodeId × String}
    (hentry : entry ∈ (holdersOf uses h).1) :
    ∃ d ∈ uses, d.site.id = entry.1 ∧ ∃ h', (d.holder? h').1 = some entry.2 := by
  have hall : ∀ entry ∈ (holdersOf uses h).1,
      ∃ d ∈ uses, d.site.id = entry.1 ∧ ∃ h', (d.holder? h').1 = some entry.2 := by
    unfold holdersOf
    refine List.foldlRecOn (motive := fun r : List (NodeId × String) × Hoisting =>
      ∀ entry ∈ r.1, ∃ d ∈ uses, d.site.id = entry.1 ∧ ∃ h', (d.holder? h').1 = some entry.2)
      uses _ nofun ?_
    rintro ⟨holders, h'⟩ hentries d hd
    dsimp only
    split
    · next name h'' heq =>
      refine List.forall_mem_cons.mpr ⟨⟨d, hd, rfl, h', ?_⟩, hentries⟩
      rw [heq]
    · exact hentries
  exact hall entry hentry

/-- A statement that holds its module has a holder, and the holder is what its setter assigns. -/
theorem Setting.exists_holder {options : Options} {t : NameTable} {file : SourceFile}
    (hids : (file.dependences.map (·.site.id)).Nodup) {d : Dependence} (hd : d ∈ file.dependences)
    (hkeeps : d.keeps = true) :
    ∃ holder, (Setting.ofFile options t file).1.holders.lookup d.site.id = some holder ∧
      (Setting.ofFile options t file).1.keptNames d = [holder] := by
  have hsome : ∀ h, (d.holder? h).1.isSome := by
    intro h
    obtain ⟨site, specifier, form⟩ := d
    match form, hkeeps with
    | .importing (some ⟨none, none⟩), _ => rfl
    | .importing (some ⟨none, some (.named _)⟩), _ => rfl
    | .importing (some ⟨none, some (.star _)⟩), _ => rfl
    | .importing (some ⟨some _, _⟩), _ => rfl
    | .equals _ _, _ => rfl
  have huses : d ∈ (Interface.ofFile t file).dependences := by
    rw [Interface.dependences_ofFile]
    exact hd
  obtain ⟨holder, hlookup⟩ := Option.isSome_iff_exists.mp (lookup_holdersOf hsome _
    (((Hoisting.ofFile file).unique "exports").2.unique "context").2.push huses)
  refine ⟨holder, hlookup, ?_⟩
  unfold keptNames
  cases hform : d.form with
  | importing clause =>
    cases clause with
    | none => simp [Dependence.keeps, hform] at hkeeps
    | some clause =>
      dsimp only
      rw [show (Setting.ofFile options t file).1.holders.lookup d.site.id = some holder from hlookup]
      rfl
  | equals name isExported =>
    obtain ⟨before, after, heq, -⟩ := List.lookup_eq_some_iff.mp hlookup
    have hentry : (d.site.id, holder) ∈ (holdersOf (Interface.ofFile t file).dependences
        (((Hoisting.ofFile file).unique "exports").2.unique "context").2.push).1 := by
      rw [heq]
      exact List.mem_append_right _ (List.mem_cons_self ..)
    obtain ⟨d', hd', hsite, h', hholder⟩ := mem_holdersOf hentry
    rw [Interface.dependences_ofFile] at hd'
    obtain rfl : d' = d := List.inj_on_of_nodup_map hids hd' hd hsite
    simp only [Dependence.holder?, hform, Option.some.injEq] at hholder
    dsimp only
    rw [hholder]
  | exporting clause => simp [Dependence.keeps, hform] at hkeeps

/-! ## Declarations -/

/-- What is set aside for the top is set aside in the innermost function. -/
theorem Hoisting.subset_addVariables {h : Hoisting} (hframes : h.frames ≠ []) (names : List String) :
    names ⊆ (h.addVariables names).pop.1.vars := by
  have hone : ∀ (h : Hoisting) (name : String), h.frames ≠ [] →
      name ∈ (h.addVariable name).pop.1.vars := by
    intro h name hframes
    obtain ⟨frame, frames, hf⟩ := List.exists_cons_of_ne_nil hframes
    simp only [addVariable, modifyTop, hf, pop]
    split
    · next hname => simpa using hname
    · simp
  unfold addVariables
  induction names generalizing h with
  | nil => exact List.nil_subset _
  | cons name names ih =>
    have hframes' := (Widens.addVariable h name).ne_nil hframes
    refine List.cons_subset.mpr ⟨?_, ih hframes'⟩
    exact (Widens.addVariables (h.addVariable name) names).pop (hone h name hframes)

variable {s : Setting}

/-- Where a statement of the module is lowered, the variables that keep its module are declared. -/
theorem Stmt.lower_declares {st : Stmt} {d : Dependence} (hd : st.dependence? = some d)
    {p p' : Progress} {sts : List Stmt} (hframes : p.hoisting.frames ≠ [])
    (hrun : (st.lower s .topLevel).run p = .ok (sts, p')) :
    s.keptNames d ⊆ p'.hoisting.pop.1.vars := by
  unfold Setting.keptNames
  rcases Stmt.dependence?_eq_some hd with ⟨clause, isTypeOnly, rfl, hform⟩ |
    ⟨x, isExported, rfl, hform⟩ | ⟨clause, rfl, hform⟩
  · rw [hform]
    cases clause with
    | none => exact List.nil_subset _
    | some clause =>
      obtain ⟨-, q, hinner, rfl⟩ := run_deeper_eq_ok hrun
      clear hrun
      obtain ⟨_, q', hhoist, hpure⟩ := run_bind_eq_ok hinner
      cases hhoist
      cases hpure
      exact Hoisting.subset_addVariables hframes _
  · rw [hform]
    obtain ⟨-, q, hinner, rfl⟩ := run_deeper_eq_ok hrun
    clear hrun
    obtain ⟨_, q', hhoist, hrest⟩ := run_bind_eq_ok hinner
    cases hhoist
    have hvars := Hoisting.subset_addVariables hframes [x.name]
    cases isExported with
    | true =>
      obtain ⟨_, q'', hname, hpure⟩ := run_bind_eq_ok hrest
      cases hname
      cases hpure
      dsimp only
      split <;> exact hvars
    | false =>
      cases hrest
      exact hvars
  · rw [hform]
    exact List.nil_subset _

theorem lowerStmts_declares : ∀ {sts sts' : List Stmt} {p p' : Progress},
    p.hoisting.frames ≠ [] → (lowerStmts s .topLevel sts).run p = .ok (sts', p') →
      ∀ st ∈ sts, ∀ d, st.dependence? = some d → s.keptNames d ⊆ p'.hoisting.pop.1.vars
  | [], _, _, _, _, _ => nofun
  | st :: sts, sts', p, p', hframes, hrun => by
    obtain ⟨first, q, hst, hrest⟩ := run_bind_eq_ok hrun
    obtain ⟨more, q', hmore, hpure⟩ := run_bind_eq_ok hrest
    cases hpure
    have hfirst : (lowerStmts s .topLevel [st]).run p = .ok (first ++ [], q) := by
      simp only [lowerStmts, StateT.run_bind, hst]
      rfl
    have hleads := lowerStmts_leads hfirst
    have hq := hleads.widens.ne_nil hframes
    refine List.forall_mem_cons.mpr ⟨fun d hd => ?_, lowerStmts_declares hq hmore⟩
    exact List.Subset.trans (Stmt.lower_declares hd hframes hst) (lowerStmts_leads hmore).widens.pop

/-! ## Alignment -/

/-- The registration of a module whose statements name other modules. -/
structure Lowered.Aligned (l : Lowered) (s : Setting) (uses : List Dependence) : Prop where
  /-- The call names the dependencies. -/
  array : l.statement.dependencies? = some (l.dependencies.map .ofString)
  /-- They are the modules that are named, each where it is first named. -/
  order : l.dependencies = (uses.filterMap (·.module? s.file)).eraseDups
  nodup : l.dependencies.Nodup
  count : l.setterCount = l.dependencies.length
  /-- Each has a setter, which serves the statements that name it. -/
  setters : ∃ star parameters, parameters.length = l.dependencies.length ∧
    l.setters? = some (List.zipWith (fun name parameter => s.setterOf star parameter
      (uses.filter (·.module? s.file = some name))) l.dependencies parameters)
  /-- No statement is served twice, and none is left out. -/
  served : ∀ d ∈ uses, ∃! i : Fin l.dependencies.length, d.module? s.file = some l.dependencies[i]

/-- How the variables that hold modules are declared and assigned. -/
structure Lowered.Holds (l : Lowered) (s : Setting) (uses : List Dependence) (d : Dependence)
    (holder : String) : Prop where
  lookup : s.holders.lookup d.site.id = some holder
  declared : ∃ f names, l.statement.factory? = some f ∧ .varNames names ∈ f.body ∧ holder ∈ names
  /-- Whatever serves the statement assigns the variable once, from the parameter of the setter. -/
  kept : ∀ star parameter, (s.serve star parameter d).filter (·.assigned? = some holder) =
    [Setting.keep holder parameter]
  /-- If no other statement holds its module under the same name, then no setter assigns the
  variable but that of the statement's own module, and that once. -/
  alone : (∀ d' ∈ uses, d'.site.id ≠ d.site.id → holder ∉ s.keptNames d') →
    ∃ setters name setter parameter star, l.setters? = some setters ∧
      d.module? s.file = some name ∧ (name, setter) ∈ l.dependencies.zip setters ∧
      setter = s.setterOf star parameter (uses.filter (·.module? s.file = some name)) ∧
      (setters.flatMap Expr.statements).filter (·.assigned? = some holder) =
        [Setting.keep holder parameter]

section alignment
variable {options : Options} {t : NameTable} {file : SourceFile} {lowered : Lowered}

theorem Dependence.module?_eq_none {d : Dependence} :
    d.module? file = none ↔ d.specifier.string? = none := Option.map_eq_none_iff

/-- The parts of a run, with the statements of the file filed under their modules. -/
theorem lower_files (h : lower options t file = .ok lowered) : ∃ groups execute p,
    Dependency.Files file file.dependences groups ∧
      (lowerStmts (Setting.ofFile options t file).1 .topLevel file.statements).run
        { hoisting := (Setting.ofFile options t file).2 } = .ok (execute, p) ∧
      lowered = (Setting.ofFile options t file).1.assemble groups execute p := by
  obtain ⟨groups, execute, p, hgroups, hrun, hlowered⟩ := lower_parts h
  refine ⟨groups, execute, p, ?_, hrun, hlowered⟩
  rw [show (Setting.ofFile options t file).1.interface.dependences = file.dependences from
    Interface.dependences_ofFile t file] at hgroups
  exact Dependency.files_of_group hgroups

/-- A module that is named is one of the dependencies, and only one. -/
theorem Dependency.Files.existsUnique {uses : List Dependence} {groups : List Dependency}
    (hfiles : Dependency.Files file uses groups) {d : Dependence} (hd : d ∈ uses) :
    ∃! i : Fin (groups.map (·.name)).length, d.module? file = some (groups.map (·.name))[i] := by
  obtain ⟨name, hname⟩ := Option.isSome_iff_exists.mp (hfiles.readable d hd)
  have hmem : name ∈ groups.map (·.name) := by
    rw [hfiles.names, List.mem_eraseDups]
    exact List.mem_filterMap.mpr ⟨d, hd, hname⟩
  obtain ⟨i, hi, hget⟩ := List.getElem_of_mem hmem
  refine ⟨⟨i, hi⟩, ?_, fun j hj => ?_⟩
  · rw [hname, ← hget]
    rfl
  · rw [hname, Option.some.injEq, ← hget] at hj
    exact Fin.ext (hfiles.nodup.getElem_inj_iff.mp hj).symm

theorem aligned_of_lower (h : lower options t file = .ok lowered) :
    lowered.Aligned (Setting.ofFile options t file).1 file.dependences := by
  obtain ⟨groups, execute, p, hfiles, -, rfl⟩ := lower_files h
  set s := (Setting.ofFile options t file).1
  obtain ⟨parameters, hlength, hsetters⟩ := s.setters_eq (s.starPart groups p).1
    (fun name => file.dependences.filter (·.module? file = some name)) groups
    (s.starPart groups p).2.2 hfiles.filed
  constructor
  case array =>
    rw [Setting.dependencies?_assemble, Setting.assemble_eq, List.map_map]
    rfl
  case order => exact hfiles.names
  case nodup => exact hfiles.nodup
  case count => exact (List.length_map _).symm
  case setters =>
    refine ⟨(s.starPart groups p).1, parameters, hlength.trans (List.length_map _).symm, ?_⟩
    rw [Setting.setters?_assemble, Setting.setterPart, hsetters]
    rfl
  case served => exact fun d hd => hfiles.existsUnique hd

/-- If one statement alone counts, then it counts in the setter of its module only. -/
theorem flatMap_setters {β : Type} {uses : List Dependence} {names parameters : List String}
    {count : String → Dependence → List β} (hnames : names.Nodup)
    (hlength : parameters.length = names.length) (huses : uses.Nodup) {d : Dependence}
    (hd : d ∈ uses) {i : Nat} (hi : i < names.length) (hmodule : d.module? file = some names[i])
    (hother : ∀ parameter, ∀ d' ∈ uses, d' ≠ d → count parameter d' = []) :
    ((names.zip parameters).flatMap fun setter =>
        (uses.filter (·.module? file = some setter.1)).flatMap (count setter.2)) =
      count (parameters.get ⟨i, by omega⟩) d := by
  have hfirst : ((names.zip parameters).map Prod.fst).Nodup := by
    rwa [List.map_fst_zip (by omega)]
  have hpairs : (names.zip parameters).Nodup := List.Nodup.of_map _ hfirst
  have hpair : (names[i], parameters.get ⟨i, by omega⟩) ∈ names.zip parameters := by
    refine List.mem_iff_getElem.mpr ⟨i, ?_, ?_⟩
    · rw [List.length_zip]
      omega
    · rw [List.getElem_zip]
      rfl
  rw [flatMap_eq_single hpairs hpair]
  · -- In the setter of the module only the statement itself counts.
    refine flatMap_eq_single (huses.filter _) (List.mem_filter.mpr ⟨hd, by simpa using hmodule⟩) ?_
    exact fun d' hd' hne => hother _ d' (List.mem_of_mem_filter hd') hne
  · -- In another setter nothing counts, as the statement is not served there.
    rintro ⟨name, parameter⟩ hmem hne
    refine List.flatMap_eq_nil_iff.mpr fun d' hd' => ?_
    obtain ⟨hmem', hmodule'⟩ := List.mem_filter.mp hd'
    refine hother parameter d' hmem' ?_
    rintro rfl
    rw [decide_eq_true_eq, hmodule, Option.some.injEq] at hmodule'
    exact hne (List.inj_on_of_nodup_map hfirst hmem hpair hmodule'.symm)

/-- The statements of the setters are those that serve the statements of the modules. -/
theorem statements_setters {s : Setting} {star : Option String} {names parameters : List String}
    {uses : List Dependence} : (List.zipWith (fun name parameter => s.setterOf star parameter
        (uses.filter (·.module? s.file = some name))) names parameters).flatMap Expr.statements =
      (names.zip parameters).flatMap fun setter =>
        (uses.filter (·.module? s.file = some setter.1)).flatMap (s.serve star setter.2) := by
  rw [← List.map_uncurry_zip_eq_zipWith, List.flatMap_map]
  rfl

/-- Of all statements in the setters, those that assign the variable of a statement's module are
those that serve the statement, if no other statement holds its module under the same name. -/
theorem filter_setters {s : Setting} {uses : List Dependence} {names parameters : List String}
    {star : Option String} (hnames : names.Nodup) (hlength : parameters.length = names.length)
    (hids : (uses.map (·.site.id)).Nodup) {d : Dependence} (hd : d ∈ uses) {i : Nat}
    (hi : i < names.length) (hmodule : d.module? s.file = some names[i]) {holder : String}
    (hkept : s.keptNames d = [holder])
    (halone : ∀ d' ∈ uses, d'.site.id ≠ d.site.id → holder ∉ s.keptNames d') :
    ((List.zipWith (fun name parameter => s.setterOf star parameter
        (uses.filter (·.module? s.file = some name))) names parameters).flatMap
      Expr.statements).filter (·.assigned? = some holder) =
        [Setting.keep holder (parameters.get ⟨i, by omega⟩)] := by
  have hother : ∀ (parameter : String), ∀ d' ∈ uses, d' ≠ d →
      (s.serve star parameter d').filter (·.assigned? = some holder) = [] := by
    intro parameter d' hd' hne
    have hid : d'.site.id ≠ d.site.id := fun heq => hne (List.inj_on_of_nodup_map hids hd' hd heq)
    rw [Setting.filter_serve, List.map_eq_nil_iff, List.filter_eq_nil_iff]
    intro name hname heq
    rw [decide_eq_true_eq] at heq
    exact halone d' hd' hid (heq ▸ hname)
  rw [statements_setters, List.filter_flatMap]
  simp only [List.filter_flatMap]
  rw [flatMap_setters hnames hlength (List.Nodup.of_map _ hids) hd hi hmodule hother,
    Setting.filter_serve, hkept]
  simp

/-- The variable that holds the module of a statement is declared at the top of the registered
function, and the setter of the module assigns it. -/
theorem holds_of_lower (hids : (file.dependences.map (·.site.id)).Nodup)
    (h : lower options t file = .ok lowered) {d : Dependence} (hd : d ∈ file.dependences)
    (hkeeps : d.keeps = true) :
    ∃ holder, lowered.Holds (Setting.ofFile options t file).1 file.dependences d holder := by
  obtain ⟨holder, hlookup, hkept⟩ : ∃ holder,
      (Setting.ofFile options t file).1.holders.lookup d.site.id = some holder ∧
        (Setting.ofFile options t file).1.keptNames d = [holder] :=
    Setting.exists_holder hids hd hkeeps
  have haligned := aligned_of_lower h
  obtain ⟨groups, execute, p, hfiles, hrun, hlowered⟩ := lower_files h
  set s := (Setting.ofFile options t file).1
  refine ⟨holder, hlookup, ?_, fun star parameter => ?_, fun halone => ?_⟩
  · obtain ⟨st, hst, hdepends⟩ := List.mem_filterMap.mp hd
    have hframes : (Setting.ofFile options t file).2.frames ≠ [] := by
      rw [frames_setting]
      exact List.cons_ne_nil _ _
    have hvars := lowerStmts_declares hframes hrun st hst d hdepends
    rw [hkept, List.cons_subset] at hvars
    refine ⟨_, p.hoisting.pop.1.vars, hlowered ▸ s.factory?_assemble groups execute p, ?_, hvars.1⟩
    have hne : p.hoisting.pop.1.vars.isEmpty = false := by
      rw [List.isEmpty_eq_false_iff]
      exact List.ne_nil_of_mem hvars.1
    simp [Setting.body, Setting.prologue, Frame.variableStmt?, hne]
  · rw [Setting.filter_serve, hkept]
    simp
  · obtain ⟨i, hmodule, -⟩ := haligned.served d hd
    obtain ⟨star, parameters, hlength, hsetters⟩ := haligned.setters
    refine ⟨_, lowered.dependencies[i], _, parameters[i], star, hsetters, hmodule, ?_, rfl, ?_⟩
    · refine List.mem_iff_getElem.mpr ⟨i, ?_, ?_⟩
      · simp [List.length_zip, List.length_zipWith, hlength]
      · simp [List.getElem_zip, List.getElem_zipWith]
    · exact filter_setters haligned.nodup hlength hids hd i.isLt hmodule hkept halone

/-- A file is not lowered if its statements cannot be filed or if it is nested too deeply. -/
theorem lower_error {e : LowerError} (h : lower options t file = .error e) :
    Dependency.group file file.dependences = .error e ∨ ∃ name, e = .tooDeep name := by
  have hfile : (Setting.ofFile options t file).1.interface.dependences = file.dependences :=
    Interface.dependences_ofFile t file
  rw [lower_eq] at h
  simp only [bind, Except.bind, hfile] at h
  split at h
  · next hgroup =>
    cases h
    exact .inl hgroup
  · split at h
    · next hrun =>
      cases h
      exact .inr (lowerStmts_error hrun)
    · cases h

theorem lower_unreadable {e : LowerError} (h : Dependency.group file file.dependences = .error e) :
    lower options t file = .error e := by
  have hfile : (Setting.ofFile options t file).1.interface.dependences = file.dependences :=
    Interface.dependences_ofFile t file
  rw [lower_eq]
  simp only [bind, Except.bind, hfile, h]

/-- The first statement without a readable specifier is the first, however the list is split. -/
theorem append_cons_inj {α : Type} {P : α → Prop} {before before' after after' : List α} {a a' : α}
    (heq : before ++ a :: after = before' ++ a' :: after') (hbefore : ∀ b ∈ before, P b)
    (ha : ¬P a) (hbefore' : ∀ b ∈ before', P b) (ha' : ¬P a') : a = a' := by
  induction before generalizing before' with
  | nil =>
    cases before' with
    | nil => exact (List.cons.inj heq).1
    | cons b before' =>
      obtain ⟨rfl, -⟩ := List.cons.inj heq
      exact absurd (hbefore' a (List.mem_cons_self ..)) ha
  | cons b before ih =>
    cases before' with
    | nil =>
      obtain ⟨rfl, -⟩ := List.cons.inj heq
      exact absurd (hbefore b (List.mem_cons_self ..)) ha'
    | cons b' before' =>
      exact ih (List.cons.inj heq).2 (List.forall_mem_cons.mp hbefore).2
        (List.forall_mem_cons.mp hbefore').2

/-- `import * as a from "m"; import { b } from "n"; export * from "m"; import c = require("m");` -/
def interleavedModule : SourceFile where
  id := .numbered 20
  name := "m.ts"
  statements := [
    .importFrom ⟨.numbered 10, {}⟩ (some ⟨none, some (.star ⟨.numbered 0, "a"⟩)⟩)
      (.ofString "m") false,
    .importFrom ⟨.numbered 11, {}⟩
      (some ⟨none, some (.named [⟨none, ⟨.numbered 1, "b"⟩, false⟩])⟩) (.ofString "n") false,
    .exportFrom ⟨.numbered 12, {}⟩ none (some (.ofString "m")) false,
    .importEquals ⟨.numbered 13, {}⟩ false ⟨.numbered 2, "c"⟩ .require (.ofString "m")]

/-- `import * as a from "m"; import * as a from "m";` -/
def twiceHeldModule : SourceFile where
  id := .numbered 20
  name := "m.ts"
  statements := [
    .importFrom ⟨.numbered 10, {}⟩ (some ⟨none, some (.star ⟨.numbered 0, "a"⟩)⟩)
      (.ofString "m") false,
    .importFrom ⟨.numbered 11, {}⟩ (some ⟨none, some (.star ⟨.numbered 1, "a"⟩)⟩)
      (.ofString "m") false]

end alignment

end RegisterForm
