import RegisterForm.Proofs.Registration.Parts
/-!
# Dependencies of a file

The statements of a file that name other modules, filed under the names after renaming. Each
statement is filed once, under its own module, and the modules come in the order in which they are
first named.
-/
namespace RegisterForm

/-- The statements that name another module. -/
theorem Stmt.dependence?_eq_some {st : Stmt} {d : Dependence} (h : st.dependence? = some d) :
    (∃ clause isTypeOnly, st = .importFrom d.site clause d.specifier isTypeOnly ∧
        d.form = .importing clause) ∨
      (∃ name isExported, st = .importEquals d.site isExported name .require d.specifier ∧
        d.form = .equals name isExported) ∨
      ∃ clause, st = .exportFrom d.site clause (some d.specifier) false ∧
        d.form = .exporting clause := by
  unfold Stmt.dependence? at h
  split at h
  · split at h
    · cases h
    · cases h
      exact .inl ⟨_, _, rfl, rfl⟩
  · cases h
    exact .inr (.inl ⟨_, _, rfl, rfl⟩)
  · split at h
    · cases h
    · cases h
      exact .inr (.inr ⟨_, rfl, rfl⟩)
  · cases h

/-- The module that a statement names, after renaming. -/
def Dependence.module? (file : SourceFile) (d : Dependence) : Option String :=
  d.specifier.string?.map file.resolveSpecifier

namespace Dependency
variable {file : SourceFile} {uses : List Dependence} {groups : List Dependency}

/-- The statements filed under their modules. -/
structure Files (file : SourceFile) (uses : List Dependence) (groups : List Dependency) : Prop where
  /-- The modules are those that are named, each where it is first named. -/
  names : groups.map (·.name) = (uses.filterMap (·.module? file)).eraseDups
  /-- A module has the statements that name it, in source order. -/
  filed : ∀ group ∈ groups, group.uses = uses.filter (·.module? file = some group.name)
  readable : ∀ d ∈ uses, (d.module? file).isSome

theorem eraseDups_concat (names : List String) (name : String) :
    (names ++ [name]).eraseDups =
      if name ∈ names then names.eraseDups else names.eraseDups ++ [name] := by
  rw [List.eraseDups_append]
  split
  · next h => simp [List.removeAll, h]
  · next h => simp [List.removeAll, h, List.eraseDups_cons]

theorem nodup_eraseDups (names : List String) : names.eraseDups.Nodup := by
  induction names using List.reverseRecOn with
  | nil => exact List.nodup_nil
  | append_singleton names name ih =>
    rw [eraseDups_concat]
    split
    · exact ih
    · next h =>
      rw [List.nodup_append_comm, List.singleton_append, List.nodup_cons, List.mem_eraseDups]
      exact ⟨h, ih⟩

/-- Filing a statement under a module touches only that module. -/
theorem mem_insert {name : String} {d : Dependence} {group : Dependency} {groups : List Dependency}
    (hnodup : (groups.map (·.name)).Nodup) (h : group ∈ insert name d groups) :
    (group.name ≠ name ∧ group ∈ groups) ∨
      (name ∉ groups.map (·.name) ∧ group = ⟨name, [d]⟩) ∨
      ∃ before ∈ groups, before.name = name ∧ group = ⟨name, before.uses ++ [d]⟩ := by
  induction groups with
  | nil => exact .inr (.inl ⟨List.not_mem_nil, List.mem_singleton.mp h⟩)
  | cons g groups ih =>
    obtain ⟨hg, hnodup'⟩ := List.nodup_cons.mp hnodup
    unfold insert at h
    split at h
    · next hname =>
      rcases List.mem_cons.mp h with rfl | hrest
      · exact .inr (.inr ⟨g, List.mem_cons_self .., hname, rfl⟩)
      · refine .inl ⟨fun heq => hg ?_, List.mem_cons_of_mem _ hrest⟩
        exact List.mem_map.mpr ⟨group, hrest, heq.trans hname.symm⟩
    · next hname =>
      rcases List.mem_cons.mp h with rfl | hrest
      · exact .inl ⟨hname, List.mem_cons_self ..⟩
      · rcases ih hnodup' hrest with ⟨hne, hmem⟩ | ⟨hnew, rfl⟩ | ⟨before, hmem, hbefore, rfl⟩
        · exact .inl ⟨hne, List.mem_cons_of_mem _ hmem⟩
        · refine .inr (.inl ⟨?_, rfl⟩)
          rw [List.map_cons, List.mem_cons]
          exact fun hmem => hmem.elim (fun heq => hname heq.symm) hnew
        · exact .inr (.inr ⟨before, List.mem_cons_of_mem _ hmem, hbefore, rfl⟩)

theorem Files.nodup (h : Files file uses groups) : (groups.map (·.name)).Nodup := by
  rw [h.names]
  exact nodup_eraseDups _

/-- One more statement is filed under the module that it names. -/
theorem Files.insert (h : Files file uses groups) {d : Dependence} {name : String}
    (hd : d.module? file = some name) : Files file (uses ++ [d]) (insert name d groups) where
  names := by
    rw [map_name_insert, List.filterMap_append, h.names]
    simp [hd, eraseDups_concat]
  filed := by
    intro group hgroup
    have hfilter : (uses ++ [d]).filter (·.module? file = some group.name) =
        uses.filter (·.module? file = some group.name) ++
          if group.name = name then [d] else [] := by
      rw [List.filter_append]
      congr 1
      by_cases hname : group.name = name
      · simp [hd, hname]
      · simp [hd, hname, Ne.symm hname]
    rw [hfilter]
    rcases mem_insert h.nodup hgroup with ⟨hne, hmem⟩ | ⟨hnew, rfl⟩ | ⟨before, hmem, hbefore, rfl⟩
    · rw [if_neg hne, List.append_nil]
      exact h.filed group hmem
    · have hnone : uses.filter (·.module? file = some name) = [] := by
        refine List.filter_eq_nil_iff.mpr fun d' hd' hname => hnew ?_
        rw [h.names, List.mem_eraseDups]
        exact List.mem_filterMap.mpr ⟨d', hd', by simpa using hname⟩
      simp [hnone]
    · rw [if_pos rfl, h.filed before hmem, hbefore]
  readable := by
    refine List.forall_mem_append.mpr ⟨h.readable, fun d' hd' => ?_⟩
    rw [List.mem_singleton.mp hd', hd]
    rfl

/-- A file whose specifiers can all be read has its statements filed; else the first statement
that has none is reported. -/
theorem group_spec (file : SourceFile) (uses : List Dependence) :
    (∃ groups, group file uses = .ok groups ∧ Files file uses groups) ∨
      ∃ before d after, uses = before ++ d :: after ∧ (∀ d' ∈ before, (d'.module? file).isSome) ∧
        d.module? file = none ∧
          group file uses = .error (.unreadableSpecifier file.name d.site.span) := by
  induction uses using List.reverseRecOn with
  | nil => exact .inl ⟨[], rfl, ⟨rfl, List.forall_mem_nil _, List.forall_mem_nil _⟩⟩
  | append_singleton uses d ih =>
    unfold group at ih ⊢
    rw [List.foldlM_append]
    rcases ih with ⟨groups, hgroups, hfiles⟩ | ⟨before, d', after, rfl, hbefore, hd', herror⟩
    · rw [hgroups]
      cases hspecifier : d.specifier.string? with
      | none =>
        have hmodule : d.module? file = none := by rw [Dependence.module?, hspecifier]; rfl
        refine .inr ⟨uses, d, [], rfl, hfiles.readable, hmodule, ?_⟩
        simp [hspecifier, bind, Except.bind]
      | some text =>
        have hmodule : d.module? file = some (file.resolveSpecifier text) := by
          rw [Dependence.module?, hspecifier]
          rfl
        refine .inl ⟨_, ?_, hfiles.insert hmodule⟩
        simp [hspecifier, bind, Except.bind, pure, Except.pure]
    · refine .inr ⟨before, d', after ++ [d], by simp, hbefore, hd', ?_⟩
      rw [herror]
      rfl

theorem files_of_group (h : group file uses = .ok groups) : Files file uses groups := by
  rcases group_spec file uses with ⟨groups', hgroups', hfiles⟩ | ⟨_, _, _, _, _, _, herror⟩
  · rw [h] at hgroups'
    cases hgroups'
    exact hfiles
  · rw [h] at herror
    cases herror

end Dependency
end RegisterForm
