import Stepper.Proofs.Advising
import Stepper.Proofs.Sheltering

/-!
Where names live, as it is reported and as the machine binds them. What is declared by `let` or
`const` is tagged as global if the node that it is reported on account of is a statement of the
program itself. Such a declaration binds its names in the scope that it is run in, which is the
global one then; and other statements bind nothing in it. So the tag tells the scope for
declarations, be they statements or heads of a `for`. The head of a loop over keys or elements is
reported on account of the loop itself, and is tagged as global where the loop is a statement of the
program, though the machine binds it in a scope of its own for each round.
-/
namespace Stepper.Analysis

open Syntax

variable {p : Program} {v : VariableInfo} {s : Sited}

/-- The node is a statement of the program itself. -/
def Sited.IsDirect (s : Sited) : Prop := ∃ a, s.ancestors.head? = some a ∧ a.kind = .program

theorem scopeTag_eq_global_iff {word : String} (hword : word ≠ "var") :
    scopeTag s word = "global" ↔ s.IsDirect := by
  have hvar : (word == "var") = false := by simp [hword]
  have hblock : ("block" : String) ≠ "global" := by decide
  have hfunction : ("function" : String) ≠ "global" := by decide
  unfold scopeTag Sited.IsDirect
  cases s.ancestors with
  | nil => simp [hvar]
  | cons a as =>
    simp only [hvar, List.head?_cons, Option.some.injEq, exists_eq_left']
    by_cases ha : a.kind = .program
    · simp [ha]
    · rw [if_neg (by simp), if_neg (by simpa using ha), iff_false_right ha]
      split
      · split
        · split
          · exact hfunction
          · exact hblock
        · exact hblock
      · exact hblock

/-- What is declared by `let` or `const` is tagged as global if the declaration is a statement of
the program itself or, for the head of a loop over keys or elements, if the loop is. -/
theorem lexical_tags (hv : v ∈ (report p).vars) (hkind : v.kind ≠ "var") :
    ∃ s ∈ sited [] p.root, ((∃ d, DeclaredBy p.source s d v) ∨ HeadOf p.source s v) ∧
      (v.scope = "global" ↔ s.IsDirect) := by
  obtain ⟨s, hs, -, h⟩ := sited_of_mem_vars hv
  have hscope : v.scope = scopeTag s v.kind := by
    rcases h with ⟨d, h⟩ | h
    · exact h.scope
    · exact h.scope
  exact ⟨s, hs, h, hscope ▸ scopeTag_eq_global_iff hkind⟩

/-- The program `for (let x of []) ;`. -/
def lexicalHead : Program :=
  { source := "for (let x of []) ;"
    root :=
      { kind := .program
        children :=
          [{ kind := .forInStatement
             children :=
              [{ kind := .token "let", named := false, field := some .kind, start := 5, stop := 8 },
                { kind := .identifier, field := some .left, start := 9, stop := 10 },
                { kind := .array, field := some .right },
                { kind := .emptyStatement, field := some .body }] }] } }

/-- The head is tagged as global, though the loop binds no name in the scope that it is run in. -/
theorem lexicalHead_is_tagged_global :
    (report lexicalHead).vars.map (fun v => (v.kind, v.name, v.scope)) = [("let", "x", "global")] ∧
      ∀ n ∈ lexicalHead.root.children, n.Sheltered lexicalHead.source := by
  refine ⟨by decide, fun n hn => ?_⟩
  obtain rfl := List.mem_singleton.mp hn
  refine .intro nofun nofun fun m hm => ?_
  obtain rfl := List.mem_singleton.mp hm
  exact .intro nofun nofun nofun

end Stepper.Analysis
