import RegisterForm.Proofs.Fresh.Accounts
import RegisterForm.Proofs.Temporary.Sight
/-!
# Names that the functions around declare

Some names are followed through a tree: wherever one of them occurs, a function around it declares
it. Lowering steps keep to that once all has run: what they declare is declared in the innermost
function, and a function that ends has declared all that was made up for it.
-/
namespace RegisterForm
open Lowering Vocabulary

/-- The functions around declare those of the followed names `T` that are in `D`. -/
def Encloses (T D : String → Prop) (around : List Enclosure) : Prop :=
  ∀ name, T name → D name → ∃ e ∈ around, name ∈ e.vars

/-- Inside functions that declare `D`, every followed name that occurs is declared around it. -/
def Shown (T D : String → Prop) (sights : List Enclosure → List Sight) : Prop :=
  ∀ around, Encloses T D around → ∀ u ∈ sights around, T u.name → u.Declared

/-- A vocabulary without the followed names. -/
def Vocabulary.sparing (T : String → Prop) : Vocabulary :=
  ⟨fun name => ¬T name, fun _ => True, fun _ => True⟩

variable {T D D' : String → Prop}

namespace Shown
variable {f g : List Enclosure → List Sight}

theorem nil : Shown T D fun _ => [] := fun _ _ _ hu => absurd hu List.not_mem_nil

theorem append (hf : Shown T D f) (hg : Shown T D g) : Shown T D fun around => f around ++ g around :=
  fun around h u hu => (List.mem_append.mp hu).elim (hf around h u) (hg around h u)

theorem mono (h : Shown T D f) (hD : ∀ name, D name → D' name) : Shown T D' f :=
  fun around henclosed => h around fun name hT hname => henclosed name hT (hD name hname)

theorem sightsOf {xs : List Ident} (h : ∀ x ∈ xs, T x.name → D x.name) :
    Shown T D (sightsOf xs) := by
  intro around henclosed u hu hT
  obtain ⟨x, hx, rfl⟩ := List.mem_map.mp hu
  exact henclosed x.name hT (h x hx hT)

/-- Inside a function the variables of its body are declared too. -/
theorem inside {vars : List String} (inBody : Bool)
    (h : Shown T (fun name => D name ∨ name ∈ vars) f) :
    Shown T D fun around => f (⟨vars, inBody⟩ :: around) := by
  intro around henclosed
  refine h (⟨vars, inBody⟩ :: around) fun name hT hname => ?_
  rcases hname with hD | hvar
  · obtain ⟨e, he, hdeclared⟩ := henclosed name hT hD
    exact ⟨e, List.mem_cons_of_mem _ he, hdeclared⟩
  · exact ⟨_, List.mem_cons_self, hvar⟩

/-- A tree without the followed names. -/
theorem of_covers {vs : List Visit}
    (hnames : ∀ around, (f around).map Sight.name = (identsIn vs).map Ident.name)
    (h : (sparing T).Covers vs) : Shown T D f := by
  intro around _ u hu hT
  have hname : u.name ∈ (identsIn vs).map Ident.name := by
    rw [← hnames around]
    exact List.mem_map_of_mem hu
  obtain ⟨x, hx, hxu⟩ := List.mem_map.mp hname
  exact absurd (hxu ▸ hT) (mentions_of_mem_identsIn h hx)

end Shown

/-! ## Made-up nodes -/

theorem shown_stmtsAppend {sts sts' : List Stmt} (h : Shown T D (stmtsSights sts))
    (h' : Shown T D (stmtsSights sts')) : Shown T D (stmtsSights (sts ++ sts')) := by
  intro around henclosed
  rw [stmtsSights_append]
  exact h.append h' around henclosed

theorem shown_exprsAppend {es es' : List Expr} (h : Shown T D (exprsSights es))
    (h' : Shown T D (exprsSights es')) : Shown T D (exprsSights (es ++ es')) := by
  intro around henclosed
  rw [exprsSights_append]
  exact h.append h' around henclosed

theorem shown_stmts {sts : List Stmt} (h : ∀ st ∈ sts, Shown T D st.sights) :
    Shown T D (stmtsSights sts) := by
  induction sts with
  | nil => exact .nil
  | cons st sts ih =>
    obtain ⟨hst, hsts⟩ := List.forall_mem_cons.mp h
    exact hst.append (ih hsts)

theorem shown_single {e : Expr} (h : Shown T D e.sights) : Shown T D (exprsSights [e]) :=
  h.append .nil

theorem shown_singleStmt (st : Stmt) (h : Shown T D st.sights) : Shown T D (stmtsSights [st]) :=
  h.append .nil

theorem shown_ofName {name : String} (h : T name → D name) : Shown T D (Expr.ofName name).sights :=
  .sightsOf fun _ hx => List.mem_singleton.mp hx ▸ h

theorem shown_slots {es : List Expr} (h : Shown T D (exprsSights es)) :
    Shown T D (slotsSights (es.map some)) := by
  have heq : slotsSights (es.map some) = exprsSights es := by
    induction es with
    | nil => rfl
    | cons e es ih =>
      funext around
      rw [List.map_cons, slotsSights, ih fun around henclosed u hu =>
        h around henclosed u (List.mem_append_right _ hu)]
      rfl
  rwa [heq]

theorem shown_assignTo {target : Pattern} {value : Expr} (htarget : Shown T D target.sights)
    (hvalue : Shown T D value.sights) : Shown T D (Expr.assignTo target value).sights :=
  htarget.append hvalue

theorem shown_lookup {owner key : Expr} (howner : Shown T D owner.sights)
    (hkey : Shown T D key.sights) : Shown T D (owner.lookup key).sights := howner.append hkey

theorem shown_orFallback {value fallback : Expr} (hvalue : Shown T D value.sights)
    (hfallback : Shown T D fallback.sights) : Shown T D (orFallback value fallback).sights :=
  ((hvalue.append .nil).append hfallback).append hvalue

theorem shown_propertyKey {key : Expr} (h : Shown T D key.sights) :
    Shown T D (propertyKey key).sights :=
  ((h.append .nil).append h).append (h.append .nil)

theorem shown_restSlice {value : Expr} (index : Nat) (h : Shown T D value.sights) :
    Shown T D (restSlice value index).sights := h.append (Shown.nil.append .nil)

theorem shown_ofList {es : List Expr} {e : Expr} (h : Shown T D (exprsSights es))
    (he : Expr.ofList es = some e) : Shown T D e.sights := by
  have hsights : ∀ around, e.sights around = exprsSights es around := by
    intro around
    match es, he with
    | [_], rfl => exact (List.append_nil _).symm
    | _ :: _ :: _, rfl => rfl
  intro around henclosed
  rw [hsights]
  exact h around henclosed

theorem shown_stmtOfList {sts : List Stmt} (h : Shown T D (stmtsSights sts)) :
    Shown T D (Stmt.ofList sts).sights := by
  have hsights : ∀ around, (Stmt.ofList sts).sights around = stmtsSights sts around := by
    intro around
    match sts with
    | [] => rfl
    | [_] => exact (List.append_nil _).symm
    | _ :: _ :: _ => rfl
  intro around henclosed
  rw [hsights]
  exact h around henclosed

theorem bodyVars_append (sts sts' : List Stmt) :
    bodyVars (sts ++ sts') = bodyVars sts ++ bodyVars sts' := by
  rw [bodyVars, blockVarBindings_append, List.map_append]
  rfl

/-- The `var` statement of a collection declares its variables. -/
theorem subset_variableStmt (frame : Frame) : frame.vars ⊆ bodyVars frame.variableStmt?.toList := by
  have hnames : ∀ names : List String,
      names ⊆ (bindingsOf { isVariable := true } (VarList.boundIdents
        ⟨.var, names.map (Declarator.ofName · none)⟩)).map (·.ident.name) := by
    intro names name hname
    simp only [bindingsOf, VarList.boundIdents, List.map_map, List.mem_map, List.mem_flatMap]
    exact ⟨.synthetic name, ⟨_, ⟨name, hname, rfl⟩, List.mem_singleton_self _⟩, rfl⟩
  obtain ⟨vars, functions⟩ := frame
  cases vars with
  | nil => exact List.nil_subset _
  | cons name names =>
    change name :: names ⊆ List.map _ (_ ++ [])
    rw [List.append_nil]
    exact hnames (name :: names)

/-- A body that starts with the declarations of a collection declares its variables. -/
theorem subset_bodyVars (frame : Frame) (body : List Stmt) :
    frame.vars ⊆ bodyVars (frame.statements ++ body) := by
  rw [Frame.statements, List.append_assoc, bodyVars_append]
  exact List.subset_append_of_subset_left _ (subset_variableStmt frame)

/-! ## Settings -/

namespace Setting.SpokenIn
variable {s : Setting} (hs : s.SpokenIn (sparing T))
include hs

theorem shown_publish (name : String) {value : Expr} (h : Shown T D value.sights) :
    Shown T D (s.publish name value).sights :=
  (shown_ofName fun hT => absurd hT hs.exporter).append (Shown.nil.append (h.append .nil))

theorem shown_published (x : Ident) {value : Expr} (h : Shown T D value.sights) :
    Shown T D (s.published x value).sights := by
  unfold published
  generalize s.exportNames x = names
  induction names generalizing value with
  | nil => exact h
  | cons name names ih => exact ih (hs.shown_publish name h)

theorem shown_publishedTo (target : Pattern) {value : Expr} (h : Shown T D value.sights) :
    Shown T D (s.publishedTo target value).sights := by
  unfold publishedTo
  split
  · exact hs.shown_published _ h
  · exact h

theorem shown_bindingAssignment {x : Ident} {value : Expr} (hx : ¬T x.name)
    (h : Shown T D value.sights) : Shown T D (s.bindingAssignment x value).sights := by
  have hident : Shown T D (Pattern.ident x).sights :=
    .sightsOf fun _ hy hT => absurd (List.mem_singleton.mp hy ▸ hT) hx
  exact hs.shown_published x (shown_assignTo hident h)

theorem shown_restCall {value : Expr} {keys : List Expr} (h : Shown T D value.sights)
    (hkeys : Shown T D (exprsSights keys)) : Shown T D (restCall value keys).sights := by
  have hname : Shown T D (Expr.ofName restName).sights :=
    shown_ofName fun hT => absurd hT hs.rest
  exact hname.append (h.append ((shown_slots hkeys).append .nil))

end Setting.SpokenIn

end RegisterForm
