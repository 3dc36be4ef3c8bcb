import RegisterForm.Proofs.Print.Nesting
import RegisterForm.Proofs.Print.Start
/-!
# Places that restrict an expression

Four places of the grammar restrict what an expression may start with or hold: an expression
statement, the body of an arrow function, an exported value and the first part of a counting
loop. The statement looks at the text it printed. The arrow looks at the root of its body alone,
and the other two do not look; so what they print is told here from the leftmost part and from
the operators of the tree.
-/
namespace RegisterForm

/-- Whatever an expression statement prints, it does not start as a block, a function or a class. -/
theorem startOf_exprStmt_append (n : Nat) (e : Expr) (rest : List Piece) :
    startOf ((Stmt.expr e).pieces n ++ rest) = .other := by
  change startOf (parenthesized _ _ ++ [.sym ";"] ++ rest) = .other
  cases hneeded : startsAmbiguously (e.pieces n) with
  | true => rfl
  | false =>
    by_cases he : e = .sequence []
    · subst he
      rfl
    · have hled := e.led n he
      by_cases hs : e.start = .other
      · rw [← hs, List.append_assoc]
        exact hled.startOf_append _
      · have hshown := hled.startsAmbiguously hs []
        rw [List.append_nil, hneeded] at hshown
        cases hshown

theorem startOf_exprStmt (n : Nat) (e : Expr) : startOf ((Stmt.expr e).pieces n) = .other := by
  simpa using startOf_exprStmt_append n e []

theorem startOf_slot (n : Nat) (e : Expr) {needed : Bool} (h : needed = false → Rank.assign ≤ e.rank)
    (rest : List Piece) :
    startOf (parenthesized needed (e.pieces n) ++ rest) = .inside needed e.start :=
  (Led.slot Rank.assign (e.led n) h).startOf_append rest

/-- The body of an arrow function starts as its leftmost part does, unless an object literal is
all of it. -/
theorem startOf_arrowBody (n : Nat) (e : Expr) :
    startOf ((ArrowBody.expr e).pieces n) = .inside (e.isObject || e.rank < Rank.assign) e.start := by
  have h : startOf (parenthesized (e.isObject || e.rank < Rank.assign) (e.pieces n) ++ []) = _ :=
    startOf_slot n e rank_of_bare_or []
  rwa [List.append_nil] at h

theorem startOf_exportDefault (n : Nat) (site : Site) (e : Expr) :
    startOf (((Stmt.exportValue site .default e).pieces n).drop 4)
      = .inside (e.rank < Rank.assign) e.start := by
  exact startOf_slot n e rank_of_bare [.sym ";"]

/-- What the four places print. An expression statement never starts as a block, a function or a
class. The body of an arrow function starts with a brace exactly if it is no object literal but
has an object literal or pattern as its leftmost part; an exported value starts with `function`,
`class` or `async function` exactly if its leftmost part does; and the first part of a loop shows
the operators `in` that its tree holds outside of brackets. -/
theorem restricted_places (n : Nat) :
    (∀ e : Expr, startOf ((Stmt.expr e).pieces n) = .other)
    ∧ (∀ e : Expr, startOf ((ArrowBody.expr e).pieces n) = .brace ↔
        e.start = .brace ∧ e.isObject = false ∧ Rank.assign ≤ e.rank)
    ∧ (∀ (site : Site) (e : Expr),
        startOf (((Stmt.exportValue site .default e).pieces n).drop 4) ∈
            [Start.function, .asyncFunction, .classWord] ↔
          e.start ∈ [Start.function, .asyncFunction, .classWord] ∧ Rank.assign ≤ e.rank)
    ∧ ∀ init : ForInit, showsIn 0 (init.pieces n) = init.showsIn := by
  have hinside : ∀ (needed : Bool) (start s : Start), s ≠ .other →
      (Start.inside needed start = s ↔ start = s ∧ needed = false) := by
    intro needed start s hs
    cases needed with
    | false => simp [Start.inside]
    | true => simp [Start.inside, hs.symm]
  refine ⟨startOf_exprStmt n, ?_, ?_, ForInit.showsIn_pieces n⟩
  · intro e
    rw [startOf_arrowBody, hinside _ _ _ (by decide)]
    simp
  · intro site e
    rw [startOf_exportDefault]
    simp only [List.mem_cons, List.not_mem_nil, or_false]
    rw [hinside _ _ _ (by decide), hinside _ _ _ (by decide), hinside _ _ _ (by decide)]
    simp [or_and_right]

/-- Where no place is guarded beyond the root: the body `{}.x` of an arrow function prints as a
block and what follows it, an exported function reads as a declaration, and `in` stands bare in
the first part of a loop. -/
theorem restricted_places_unguarded :
    let body : Expr := .member (.object []) "x" false
    let value : Expr := .function ⟨none, [], [], false, false⟩
    let first : Expr := .binary .isIn (.ident (.synthetic "a")) (.ident (.synthetic "b"))
    (Expr.arrow [] (.expr body) false).print = "() => \x7b\x7d.x"
      ∧ startOf ((ArrowBody.expr body).pieces 0) = .brace
      ∧ (Stmt.exportValue ⟨.synthetic, default⟩ .default value).print
        = "export default function () \x7b\n\x7d;"
      ∧ startOf (((Stmt.exportValue ⟨.synthetic, default⟩ .default value).pieces 0).drop 4) = .function
      ∧ (Stmt.forLoop (.expr first) none none .empty).print = "for (a in b;;) ;"
      ∧ showsIn 0 ((ForInit.expr first).pieces 0) = true := by
  decide +kernel

end RegisterForm
