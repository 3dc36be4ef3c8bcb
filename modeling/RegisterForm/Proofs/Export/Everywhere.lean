import RegisterForm.Proofs.Export.Names
import RegisterForm.Proofs.Export.Writes
import RegisterForm.Proofs.Lowering.Execute
/-!
# Modules that publish their writes

In the lowered form of a module every write to an exported variable is published under the
names of the variable, wherever it stands, and nothing else in an expression is. A variable has
such names exactly if it is an exported one of the module.
-/
namespace RegisterForm
open Lowering NameTable

variable {file : SourceFile} {x : Ident} {options : Options}

/-- No variable is published twice under one name. -/
theorem nodup_exportNames (x : Ident) :
    ((Setting.ofFile options (ofFile file) file).1.exportNames x).Nodup := by
  unfold Setting.exportNames
  split
  · exact List.nodup_nil
  · cases (Setting.ofFile options (ofFile file) file).1.names.valueDeclaration? x with
    | none => exact List.nodup_singleton _
    | some d =>
      have hnames := Interface.nodup_namesOf (Interface.nodup_ofFile (ofFile file) file) d
      split
      · exact List.nodup_singleton _
      · next name names hlist =>
        have hlist' : (Interface.ofFile (ofFile file) file).namesOf d = name :: names := hlist
        exact hlist' ▸ hnames

/-- Just the exported variables of the module have names. -/
theorem exportNames_ne_nil_iff (hw : file.WellNumbered) (hf : file.IsFlat) :
    (Setting.ofFile options (ofFile file) file).1.exportNames x ≠ [] ↔
      ∃ symbol, (ofFile file).IsOwn x symbol ∧ symbol.roles.isExported = true := by
  constructor
  · intro hne
    have hexporter : (ofFile file).exporterOf? x = some file.id ∧
        ((ofFile file).importOf? x).isSome = false := by
      by_contra hnot
      refine hne (if_pos ?_)
      rw [Bool.or_eq_true, Bool.or_eq_true]
      by_contra hall
      refine hnot ⟨?_, ?_⟩
      · by_contra he
        exact hall (.inl (.inr (decide_eq_true he)))
      · by_contra hi
        exact hall (.inr (Bool.not_eq_false _ ▸ hi))
    obtain ⟨symbol, hs, hexported⟩ := Option.bind_eq_some_iff.mp hexporter.1
    split at hexported
    · next hroles =>
      obtain ⟨he, hv⟩ := Bool.and_eq_true_iff.mp hroles
      have himport := hexporter.2
      have htype : symbol.roles.isTypeOnly = false := by
        simpa using (Bool.and_eq_true_iff.mp hv).2
      rw [importOf?, hs, Option.bind_some, if_neg (by simp [htype])] at himport
      obtain ⟨-, id, -, hid⟩ := symbolOf?_eq_some hs
      have hscope : symbol.scope = 0 := by
        by_contra h₀
        rw [(plain_of_inner hw hf hid h₀).1] at he
        cases he
      exact ⟨symbol, ⟨hs, hscope, hv, Option.not_isSome_iff_eq_none.mp (by simp [himport])⟩, he⟩
    · cases hexported
  · rintro ⟨symbol, ho, he⟩
    rw [exportNames_of_own ho, if_pos he]
    split <;> exact List.cons_ne_nil _ _

/-! ## Modules -/

/-- What a parser gives inside a statement of the module. -/
theorem allSound_statement (hw : file.WellNumbered) (hf : file.IsFlat) {st : Stmt}
    (hst : st ∈ file.statements) : AllSound st.visits.tail := by
  intro v hv
  cases v with
  | ident x =>
    have hx : Visit.ident x ∈ file.visits := stmt_visits_subset hst (List.mem_of_mem_tail hv)
    have hmem : x ∈ identsIn file.visits := List.mem_filterMap.mpr ⟨_, hx, rfl⟩
    simp [Visit.isSound, hw.not_synthetic hmem]
  | stmt st' => exact hf st hst _ hv
  | _ => rfl

/-- The exporter has a name of its own, unlike the helper for object rests. -/
theorem exporter_ne_restName (options : Options) (file : SourceFile) :
    (Setting.ofFile options (ofFile file) file).1.exporter ≠ restName := by
  intro h
  have hhead := congrArg (fun name : String => name.toList.head?) h
  simp [Setting.ofFile, Setting.ofState, FileState.ofFile, Hoisting.unique, NameSupply.unique, NameSupply.numbered,
    NameSupply.numberedStem, restName] at hhead

theorem frames_holdersOf (uses : List Dependence) (h : Hoisting) :
    (holdersOf uses h).2.frames = h.frames := by
  have hone : ∀ (d : Dependence) (h : Hoisting), (d.holder? h).2.frames = h.frames := by
    intro d h
    unfold Dependence.holder?
    split <;> rfl
  refine List.foldlRecOn (motive := fun r : List (NodeId × String) × Hoisting =>
    r.2.frames = h.frames) uses _ rfl ?_
  rintro ⟨holders, h'⟩ hframes d -
  have hd := (hone d h').trans hframes
  dsimp only
  split
  · next name h'' heq => rwa [heq] at hd
  · next h'' heq => rwa [heq] at hd

/-- Nothing is collected before the first statement. -/
theorem frames_ofFile (options : Options) (file : SourceFile) :
    (Setting.ofFile options (ofFile file) file).2.frames = [{}] := by
  unfold Setting.ofFile
  exact frames_holdersOf _ _

theorem lowerModule_published {s : Setting} (hrest : s.exporter ≠ restName) :
    ∀ sts : List Stmt, (∀ st ∈ sts, AllSound st.visits.tail) →
      Yields s.Emits (lowerStmts s .topLevel sts) fun sts' =>
        s.AllPublishedAt .topLevel (stmtsExprs sts')
  | [], _ => .pure Setting.allPublishedAt_nil
  | st :: sts, h => by
    obtain ⟨hst, hsts⟩ := List.forall_mem_cons.mp h
    refine (st.lower_published hrest .topLevel hst (.inl rfl)).bind fun first hfirst =>
      (lowerModule_published hrest sts hsts).bind fun more hmore => .pure ?_
    rw [stmtsExprs_append]
    exact Setting.allPublishedAt_append.mpr ⟨hfirst, hmore⟩

/-- How a lowered module publishes its writes. -/
structure Setting.PublishesWrites (s : Setting) (lowered : Lowered) : Prop where
  /-- Writes are published everywhere in the lowered statements and in the hoisted functions. -/
  everywhere : ∃ groups execute p, lowered = s.assemble groups execute p ∧
    s.AllPublishedAt .topLevel (stmtsExprs execute) ∧
      ∀ frame ∈ p.hoisting.frames, s.AllPublished (stmtsExprs frame.functions)
  /-- So they are in whatever an expression of a statement is lowered to. -/
  expressions : ∀ st ∈ s.file.statements, ∀ e : Expr, e.visits ⊆ st.visits.tail → ∀ isUsed,
    Yields Any (e.lower s isUsed) s.Published
  /-- An assignment publishes its target, or each identifier of a pattern that is taken apart. -/
  assignments : ∀ (op : AssignOp) (target : Pattern) (value : Expr) (isUsed : Bool),
    Yields Any ((Expr.assign op target value).lower s isUsed) fun e =>
      e.publications s.exporter =
        (if s.takesApart op target then target.boundIdents else target.ident?.toList).flatMap
          s.publications
  /-- An update of an exported identifier is published; a suffix operator whose value is used is
  followed by the step back. -/
  updates : ∀ (op : UpdateOp) (isPrefix : Bool) (arg : Expr) (isUsed : Bool) (x : Ident),
    arg.skipParens = .ident x → s.exportNames x ≠ [] →
      Yields Any ((Expr.update op isPrefix arg).lower s isUsed) fun e =>
        e = if isPrefix || !isUsed then s.published x (.update op true (.ident x))
          else .binary (Setting.undo op) (s.published x (.update op true (.ident x))) (.ofNumber "1")
  names_nodup : ∀ x, (s.exportNames x).Nodup
  /-- Only the exported variables of the module have names to publish. -/
  names_own : ∀ x, s.exportNames x ≠ [] ↔
    ∃ symbol, s.names.IsOwn x symbol ∧ symbol.roles.isExported = true

/-- `export let x = 0; { let x = 1; x++; } f(x++);` -/
def shadowedWrite : SourceFile where
  id := .numbered 9
  name := "m.ts"
  statements := [
    .var { isExported := true } ⟨.let, [⟨.ident ⟨.numbered 0, "x"⟩, some (.ofNumber "0")⟩]⟩,
    .block [
      .var {} ⟨.let, [⟨.ident ⟨.numbered 1, "x"⟩, some (.ofNumber "1")⟩]⟩,
      .expr (.update .increment false (.ident ⟨.numbered 2, "x"⟩))],
    .expr (.call (.ident ⟨.numbered 3, "f"⟩)
      [.update .increment false (.ident ⟨.numbered 4, "x"⟩)] false)]

theorem shadowedWrite_isFlat : shadowedWrite.IsFlat := by
  unfold SourceFile.IsFlat AllInner
  decide

end RegisterForm
