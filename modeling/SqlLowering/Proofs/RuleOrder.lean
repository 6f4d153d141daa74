import SqlLowering.Proofs.Equations

/-!
# The order of the rules

Rules are tried one after the other, and the first answer counts. Two things could make the order
matter: two rules that answer for the same node in different ways, and a rule that lowers operands,
leaves their notes and then passes the node on to a rule that lowers them again. Neither happens
among exclusive rules, of which at most one does anything at all with a node.

Main statement: `Rule.lowerWith_eq_lower_of_perm`. The standard rules are exclusive in pairs, so
every order of them gives the same results, the same failures and the same notes.
-/

namespace SqlLowering

open Dialect

namespace Rule

/-- Of two exclusive rules, one passes on the node at once: it has no answer and leaves no note. -/
def Exclusive (r s : Rule) : Prop :=
  ∀ (ctx : Context) (e : Expr) (d : Descent e),
    r ctx e d = .untranslatable ∨ s ctx e d = .untranslatable

theorem Exclusive.symm {r s : Rule} (h : Exclusive r s) : Exclusive s r :=
  fun ctx e d => (h ctx e d).symm

/-- Two exclusive rules may change places. -/
theorem Exclusive.firstOf_swap {r s : Rule} (h : Exclusive r s) (ctx : Context) (e : Expr)
    (d : Descent e) (rules : List Rule) :
    firstOf ctx e d (r :: s :: rules) = firstOf ctx e d (s :: r :: rules) := by
  simp only [firstOf]
  rcases h ctx e d with passed | passed
  · rw [passed, Lowering.untranslatable_orElse, Lowering.untranslatable_orElse]
  · rw [passed, Lowering.untranslatable_orElse, Lowering.untranslatable_orElse]

/-- The first answer of exclusive rules does not depend on their order. -/
theorem firstOf_perm {rules rules' : List Rule} (perm : rules.Perm rules')
    (exclusive : rules.Pairwise Exclusive) (ctx : Context) (e : Expr) (d : Descent e) :
    firstOf ctx e d rules = firstOf ctx e d rules' := by
  induction perm with
  | nil => rfl
  | cons r _ ih =>
      rw [firstOf, firstOf, ih (List.pairwise_cons.mp exclusive).2]
  | swap r s rules =>
      have apart : Exclusive s r := (List.pairwise_cons.mp exclusive).1 r List.mem_cons_self
      exact apart.firstOf_swap ctx e d rules
  | trans first _ ih ih' =>
      rw [ih exclusive, ih' (exclusive.perm first Exclusive.symm)]

/-- Lowering with exclusive rules does not depend on their order, at any depth of the expression. -/
theorem lowerWith_perm {rules rules' : List Rule} (perm : rules.Perm rules')
    (exclusive : rules.Pairwise Exclusive) (ctx : Context) (e : Expr) :
    lowerWith rules ctx e = lowerWith rules' ctx e := by
  induction e using Expr.lowering_induction with
  | step e operand expanded =>
      have descent :
          (⟨fun c _ => lowerWith rules ctx c, fun tree _ => lowerWith rules ctx tree⟩ : Descent e) =
            ⟨fun c _ => lowerWith rules' ctx c, fun tree _ => lowerWith rules' ctx tree⟩ := by
        congr 1
        · funext c mem
          exact operand c mem
        · funext tree stands
          exact expanded tree stands
      rw [lowerWith, lowerWith, descent]
      exact firstOf_perm perm exclusive ctx e _

/-- A node has one kind, and the rules for all other kinds pass it on. -/
theorem Kind.exclusive_of_ne {k l : Kind} (ne : k ≠ l) : Exclusive k.rule l.rule := by
  intro ctx e d
  by_cases same : e.kind = k
  · exact .inr (rule_of_kind_ne (same ▸ ne) ctx d)
  · exact .inl (rule_of_kind_ne same ctx d)

/-- Each rule is for one kind of node, and no two are for the same kind. -/
theorem pairwise_exclusive_standard : standard.Pairwise Exclusive := by
  rw [Kind.standard_eq_map_rule, List.pairwise_map]
  exact Kind.nodup_all.imp Kind.exclusive_of_ne

/-- The order of the standard rules is immaterial: whatever order they are tried in, for the
expression and for all its parts, lowering ends in the same way and leaves the same notes in the
same order. -/
theorem lowerWith_eq_lower_of_perm {rules : List Rule} (perm : rules.Perm standard) (ctx : Context)
    (e : Expr) : lowerWith rules ctx e = e.lower ctx :=
  lowerWith_perm perm (pairwise_exclusive_standard.perm perm.symm Exclusive.symm) ctx e

/-- Backwards, the name of a weekday is still lowered as the tree it stands for, and its pattern is
noted once. -/
theorem lowerWith_eq_lower_of_perm_of_reverse :
    standard.reverse.Perm standard ∧
    lowerWith standard.reverse {} (.call .dayOfWeekName [.column ⟨1, "at", none, .date⟩]) =
      ⟨[⟨.symbol, "EEEE", "%W"⟩],
        .done (.func "DATE_FORMAT" [.ident "at", Fragment.bindText "%W"])⟩ := by
  have perm : standard.reverse.Perm standard := List.reverse_perm standard
  have converted : Format.toSymbols "EEEE" = "%W" := by decide +kernel
  refine ⟨perm, ?_⟩
  rw [lowerWith_eq_lower_of_perm perm, Expr.lower_compositeCall {} rfl]
  show Expr.lower {} (.call .dateFormat [.column ⟨1, "at", none, .date⟩, .text "EEEE"]) = _
  rw [Expr.lower_formatFunction {} rfl, Expr.lower_column, ← converted]
  rfl

end Rule

end SqlLowering
