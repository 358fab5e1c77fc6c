import Stepper.Proofs.Composition.Expression

/-!
Statements are composed. Five of them look at what a part came to: a body of a loop, a guarded
block, a `try` with a finalizer, a switch and a labeled statement. Each lets a stop pass, so neither
a handler nor a finalizer runs for it; of the signals it ends those that have their target in it.
-/
namespace Stepper.Machine

open Syntax

namespace Means

variable {K : Means} {t : Targets} {labels : List String} {n c : Node}

/-- A confined node is an expression of the law, as all its parts are. -/
theorem expression_of_confined (hn : K.confined t labels n) : K.expression n := ⟨t, labels, hn⟩

namespace Hereditary

variable (hK : K.Hereditary)

include hK

theorem unwrapClause {o : Option Node} (ho : ∀ n, o = some n → K.expression n)
    (h : Node.unwrapClause o = some n) : K.expression n := by
  cases o with
  | none => cases h
  | some m =>
    simp only [Node.unwrapClause] at h
    split at h
    · cases h
    · cases h
    · exact hK.firstChild (ho m rfl) h
    · cases h
      exact ho _ rfl

section

variable (hn : K.confined t labels n)

include hn

/-- Jumps reach no further inside a node that changes nothing. -/
theorem plainNamed (hkind : Targets.changes n.kind = false) (hc : c ∈ n.namedChildren) :
    K.confined t [] c := hK.plain hn hkind (List.mem_filter.mp hc).1

/-- Inside a loop jumps may reach it, by its labels too. -/
theorem insideLoop (hkind : n.kind.isLoop = true) {f : Field} (hc : n.child? f = some c) :
    K.confined (t.insideLoop labels) [] c := by
  obtain ⟨s, hs⟩ := hK.hasSource
  simpa only [Targets.ofChild_of_isLoop hkind] using
    hK.confined hs hn c (List.mem_of_find?_eq_some hc)

/-- What a clause holds stands where the clause stands. -/
theorem insideClause (hkind : Targets.changes n.kind = false) {f : Field}
    (hc : n.child? f = some c) (hclause : Targets.isClause n c = true) {d : Node}
    (hd : d ∈ c.children) : K.confined t [] d := by
  obtain ⟨s, hs⟩ := hK.hasSource
  simpa only [Targets.ofChild_of_not_changes hkind] using
    hK.clauses hs hn (List.mem_of_find?_eq_some hc) hclause d hd

/-- Inside a switch a jump may leave it. -/
theorem insideSwitch (hkind : n.kind = .switchStatement) {body : Node}
    (hbody : n.child? .body = some body) (hc : c ∈ body.namedChildren) :
    K.confined (t.insideSwitch labels) [] c := by
  obtain ⟨s, hs⟩ := hK.hasSource
  have hfield : body.field = some .body := by simpa using List.find?_some hbody
  have hclause : Targets.isClause n body = true := by simp [Targets.isClause, hkind, hfield]
  simpa only [Targets.ofChild_of_switch hkind] using
    hK.clauses hs hn (List.mem_of_find?_eq_some hbody) hclause c (List.mem_filter.mp hc).1

end

end Hereditary
end Means

namespace Action

variable {K : Means} {t : Targets} {n body : Node} {e : ScopeRef} {labels : List String}
  (word : String) (hK : K.Hereditary) (he : K.opens e)

/-- In the scope of a round names may be declared if they may in the one that it is made from. -/
theorem composed_roundScope_bind {from_ parent : ScopeRef} {names : List String}
    (hfrom : K.opens from_) {f : ScopeRef → Action α} (hf : ∀ e, K.opens e → (f e).Composed K t) :
    (roundScope from_ parent names >>= f).Composed K t := by
  unfold roundScope
  rw [ite_bind]
  refine composed_ite (hf from_ hfrom) ?_
  rw [bind_assoc]
  exact .bind (composed_scope from_) fun _ => .within _ hf

include he in
/-- Statements are executed one after the other. -/
theorem composed_execAll {ns : List Node} (hns : ∀ n ∈ ns, K.confined t [] n) :
    (execAll ns e).Composed K t :=
  composed_each_of_mem fun n hn => composed_exec he (hns n hn)

include hK

/-- A block opens a scope, makes its functions and runs its statements. -/
theorem composed_execBlock (hn : K.confined t labels n)
    (hkind : Targets.changes n.kind = false) : (execBlock n e).Composed K t := by
  have hstatements : ∀ s ∈ n.namedChildren, K.confined t [] s :=
    fun _ hs => hK.plainNamed hn hkind hs
  exact composed_childScope_bind fun inside hinside =>
    .bind (composed_hoistBlock hK hinside fun s hs => Means.expression_of_confined (hstatements s hs))
      fun _ => composed_execAll hinside hstatements

include he

theorem composed_execDeclaration (hn : K.expression n) : (execDeclaration n e).Composed K t := by
  refine .source fun source _ => ?_
  extract_lets word mode
  refine composed_each_of_mem fun d hd => composed_ite ?_ (composed_pure ())
  have hd := hK.child hn hd
  refine composed_part_bind fun target htarget => ?_
  have htarget := hK.child? hd htarget
  cases hvalue : d.child? .value with
  | none => exact composed_ite (composed_pure ()) (composed_bindTarget e htarget _ fun _ _ => he)
  | some value =>
    have hvalue := hK.child? hd hvalue
    grind

/-- One branch is executed. -/
theorem composed_execIf (hn : K.confined t labels n) (hkind : n.kind = .ifStatement) :
    (execIf n e).Composed K t := by
  have hplain : Targets.changes n.kind = false := by rw [hkind]; rfl
  refine composed_part_bind fun condition hcondition =>
    .bind (composed_eval e (hK.child? (Means.expression_of_confined hn) hcondition)) fun test => ?_
  refine composed_ite (composed_part_bind fun branch hbranch => composed_exec he ?_) ?_
  · exact hK.plain hn hplain (List.mem_of_find?_eq_some hbranch)
  · cases halternative : n.child? .alternative with
    | none => exact composed_pure ()
    | some alternative =>
      have hfield : alternative.field = some .alternative := by
        simpa using List.find?_some halternative
      exact composed_execAll he fun s hs => hK.insideClause hn hplain halternative
        (by simp [Targets.isClause, hkind, hfield]) (List.mem_filter.mp hs).1

omit hK in
/-- A signal to the loop ends here. -/
theorem composed_execBody (hbody : K.confined (t.insideLoop labels) [] body) :
    (execBody body e labels).Composed K t := by
  refine .handle (composed_exec he hbody) (fun r _ hr => ?_) rfl
  rcases r with i | u
  · have hpass (hleft : ∀ l, i = .left l → owns labels l = false)
        (hcontinued : ∀ l, i = .continued l → owns labels l = false) :
        (interrupt i : Action Bool).Composed K t :=
      composed_interrupt ((hr i rfl).imp_right fun h =>
        Targets.admits_of_insideLoop h hleft hcontinued)
    cases i with
    | left label =>
      refine composed_ite_of (fun _ => composed_pure false) fun howns => ?_
      exact hpass (fun l hl => by cases hl; simpa using howns) nofun
    | continued label =>
      refine composed_ite_of (fun _ => composed_pure true) fun howns => ?_
      exact hpass nofun fun l hl => by cases hl; simpa using howns
    | _ => exact hpass nofun nofun
  · exact composed_pure true

section

variable (hn : K.confined t labels n) (hkind : n.kind.isLoop = true)

include hn hkind

/-- A loop tests and runs its body, round by round. -/
theorem composed_execWhile : (execWhile n e labels).Composed K t := by
  refine composed_part_bind fun condition hcondition => composed_part_bind fun body hbody =>
    composed_repeating (fun _ => ?_) ()
  refine .bind (composed_eval e (hK.child? (Means.expression_of_confined hn) hcondition))
    fun test => composed_ite (composed_pure _) ?_
  exact .bind (composed_execBody he (hK.insideLoop hn hkind hbody)) fun _ =>
    composed_ite (composed_pure _) (composed_pure _)

theorem composed_execDo : (execDo n e labels).Composed K t := by
  refine composed_part_bind fun condition hcondition => composed_part_bind fun body hbody =>
    composed_repeating (fun _ => ?_) ()
  refine .bind (composed_execBody he (hK.insideLoop hn hkind hbody)) fun goesOn =>
    composed_ite (composed_pure _) ?_
  exact .bind (composed_eval e (hK.child? (Means.expression_of_confined hn) hcondition)) fun _ =>
    composed_ite (composed_pure _) (composed_pure _)

omit hn hkind in
theorem composed_execForHead {initializer : Option Node}
    (hi : ∀ i, initializer = some i → K.expression i) :
    (execForHead initializer e).Composed K t := by
  cases initializer with
  | none => exact composed_pure _
  | some i =>
    refine composed_ite (.bind (composed_execDeclaration hK he (hi i rfl)) fun _ => .source
      fun _ _ => composed_pure _) ?_
    cases hx : Node.unwrapClause (some i) with
    | none => exact composed_pure _
    | some x => exact .bind (composed_eval e (hK.unwrapClause hi hx)) fun _ => composed_pure _

omit he in
/-- Each round runs in a scope of its own. -/
theorem composed_execFor : (execFor n e labels).Composed K t := by
  have hexpression := Means.expression_of_confined hn
  unfold execFor
  generalize hcondition : Node.unwrapClause (n.child? .condition) = condition
  generalize hincrement : n.child? .increment = increment
  refine composed_part_bind fun body hbody => composed_childScope_bind fun head hhead =>
    .bind (composed_execForHead hK hhead fun _ h => hK.child? hexpression h) fun names =>
    composed_roundScope_bind hhead fun first hfirst => composed_loop_of (p := K.opens)
      (fun round hround g hl hr => ?_) maxRounds hfirst
  have hbody := composed_execBody hround (hK.insideLoop hn hkind hbody)
  extract_lets rest
  have hrest (goesOn) : (rest goesOn >>= g).Composed K t := by
    unfold rest
    simp only [ite_bind, bind_assoc]
    refine composed_ite (hr ()) (.bind hbody fun _ => composed_ite (hr ())
      (composed_roundScope_bind hround fun next hnext => ?_))
    cases increment with
    | none => exact hl next hnext
    | some i =>
      dsimp only
      rw [bind_assoc]
      exact .bind (composed_eval next (hK.child? hexpression hincrement)) fun _ => hl next hnext
  cases condition with
  | none => exact hrest true
  | some c =>
    have hc := hK.unwrapClause (fun _ h => hK.child? hexpression h) hcondition
    rw [bind_assoc]
    exact .bind (composed_eval round hc) fun v => hrest v.truth

/-- An item is bound in a new scope, where the body runs. -/
theorem composed_execItem (hbody : n.child? .body = some body) (v : Value) :
    (execItem n body word v e labels).Composed K t := by
  have hinside := hK.insideLoop hn hkind hbody
  refine composed_part_bind fun left hleft => ?_
  have hleft := hK.child? (Means.expression_of_confined hn) hleft
  refine composed_ite ?_ ?_
  · exact composed_childScope_bind fun scope hscope =>
      .bind (composed_bindTarget scope hleft _ fun _ _ => hscope) fun _ =>
        composed_execBody hscope hinside
  · have hmode (kind) (h : (if word == "var" then BindMode.var else .assign) = .declare kind) :
        K.opens e := by split at h <;> cases h
    exact .bind (composed_bindTarget e hleft _ hmode) fun _ => composed_execBody he hinside

theorem composed_execItems (hbody : n.child? .body = some body) (items : List Value) :
    (execItems n body word e labels items).Composed K t := by
  refine composed_repeating (fun items => ?_) items
  cases items with
  | nil => exact composed_pure _
  | cons v vs =>
    exact .bind (composed_execItem word hK he hn hkind hbody v) fun _ =>
      composed_ite (composed_pure _) (composed_pure _)

theorem composed_execElements (hbody : n.child? .body = some body) (r : Ref) :
    (execElements n body word e labels r).Composed K t := by
  refine composed_repeating (fun i => .bind (composed_object r) fun o => ?_) 0
  cases o.elements[i]? with
  | none => exact composed_pure _
  | some v =>
    exact .bind (composed_execItem word hK he hn hkind hbody v) fun _ =>
      composed_ite (composed_pure _) (composed_pure _)

/-- The items are those of the value as it was, or of the array as it is. -/
theorem composed_execForIn : (execForIn n e labels).Composed K t := by
  refine .source fun source _ => composed_part_bind fun body hbody => ?_
  extract_lets word rest
  have hitems (vs) : (execItems n body word e labels vs).Composed K t :=
    composed_execItems word hK he hn hkind hbody vs
  have hrest (keys) : (rest keys).Composed K t := hitems _
  refine composed_part_bind fun right hright =>
    .bind (composed_eval e (hK.child? (Means.expression_of_confined hn) hright)) fun collection =>
    composed_ite ?_ (composed_ite (hrest []) (.bind (composed_enumerableKeys _) hrest))
  have hiterated : (do execItems n body word e labels (← iterate collection)).Composed K t :=
    .bind (composed_iterate collection) hitems
  cases collection with
  | object r =>
    exact .bind (composed_object r) fun _ =>
      composed_ite (composed_execElements word hK he hn hkind hbody r) hiterated
  | _ => exact hiterated

end

omit he in
theorem composed_labelOf_bind {f : Option String → Action Unit} (hf : ∀ s, K.source s →
    (f ((n.child? .label).map (Node.text s))).Composed K t) : (labelOf n >>= f).Composed K t := by
  unfold labelOf
  cases hl : n.child? .label with
  | none =>
    obtain ⟨s, hs⟩ := hK.hasSource
    have hf := hf s hs
    rw [hl] at hf
    exact hf
  | some l =>
    dsimp only
    rw [bind_assoc]
    refine composed_textOf_bind fun s hs => ?_
    have hf := hf s hs
    rw [hl] at hf
    exact hf

section

variable (hn : K.confined t labels n)

include hn
omit he

theorem composed_execBreak (hkind : n.kind = .breakStatement) :
    (do interrupt (.left (← labelOf n)) : Action Unit).Composed K t :=
  composed_labelOf_bind hK fun _ hs => composed_interrupt
    ((hK.suits hs hn).imp_right fun h => Targets.admits_break h hkind)

theorem composed_execContinue (hkind : n.kind = .continueStatement) :
    (do interrupt (.continued (← labelOf n)) : Action Unit).Composed K t :=
  composed_labelOf_bind hK fun _ hs => composed_interrupt
    ((hK.suits hs hn).imp_right fun h => Targets.admits_continue h hkind)

/-- A return gives up the body with a value. -/
theorem composed_execReturn (hkind : n.kind = .returnStatement) :
    (execReturn n e).Composed K t := by
  obtain ⟨s, hs⟩ := hK.hasSource
  have hreturn (v) : (interrupt (.returned v) : Action Unit).Composed K t :=
    composed_interrupt ((hK.suits hs hn).imp_right fun h => Targets.admits_return h hkind v)
  unfold execReturn
  cases hx : n.namedChildren.head? with
  | none => exact hreturn _
  | some x =>
    exact .bind (composed_eval e (hK.firstChild (Means.expression_of_confined hn) hx)) hreturn

end

omit hK he in
/-- What the program sees of something it can catch is composed. -/
theorem composed_of_caught {i : Interrupt} {v : Action Value} (h : caught? i = some v) :
    v.Composed K t := by
  cases i <;> simp only [caught?, Option.some.injEq, reduceCtorEq] at h <;> subst h <;> grind

omit hK he in
/-- A handler binds what was caught and runs its body. -/
theorem composed_runHandler {handler : Node} {v : Action Value} (hv : v.Composed K t)
    (hparameter : ∀ p, handler.child? .parameter = some p → K.expression p)
    (hbody : ∀ b, handler.child? .body = some b → K.confined t [] b) :
    (runHandler handler v e).Composed K t := by
  refine composed_childScope_bind fun inside hinside => ?_
  have hrest : (do exec (← part (handler.child? .body)) inside).Composed K t :=
    composed_part_bind fun b hb => composed_exec hinside (hbody b hb)
  cases hp : handler.child? .parameter with
  | none => exact hrest
  | some p =>
    exact .bind hv fun _ =>
      .bind (composed_bindTarget inside (hparameter p hp) _ fun _ _ => hinside) fun _ => hrest

section

variable (hn : K.confined t labels n) (hkind : n.kind = .tryStatement)

include hn hkind

theorem composed_execGuarded : (execGuarded n e).Composed K t := by
  have hplain : Targets.changes n.kind = false := by rw [hkind]; rfl
  refine composed_part_bind fun body hbody => ?_
  have hbody := hK.plain hn hplain (List.mem_of_find?_eq_some hbody)
  cases hhandler : n.child? .handler with
  | none => exact composed_exec he hbody
  | some handler =>
    have hfield : handler.field = some .handler := by simpa using List.find?_some hhandler
    have hinside : ∀ c ∈ handler.children, K.confined t [] c := fun c hc =>
      hK.insideClause hn hplain hhandler (by simp [Targets.isClause, hkind, hfield]) hc
    refine .handle (composed_exec he hbody) (fun r _ hr => ?_) rfl
    rcases r with i | u
    · cases hi : caught? i with
      | none => simpa only [hi] using composed_interrupt (hr i rfl)
      | some v =>
        simpa only [hi] using composed_runHandler (composed_of_caught hi)
          (fun p hp => Means.expression_of_confined (hinside p (List.mem_of_find?_eq_some hp)))
          fun b hb => hinside b (List.mem_of_find?_eq_some hb)
    · exact composed_pure ()

/-- A finalizer runs after everything but a stop. -/
theorem composed_execTry : (execTry n e).Composed K t := by
  have hplain : Targets.changes n.kind = false := by rw [hkind]; rfl
  have hguarded : (execGuarded n e).Composed K t := composed_execGuarded hK he hn hkind
  unfold execTry
  cases hfinalizer : n.child? .finalizer with
  | none => exact hguarded
  | some finalizer =>
    have hfield : finalizer.field = some .finalizer := by simpa using List.find?_some hfinalizer
    have hrun {b} (hb : finalizer.child? .body = some b) : (exec b e).Composed K t :=
      composed_exec he (hK.insideClause hn hplain hfinalizer
        (by simp [Targets.isClause, hkind, hfield]) (List.mem_of_find?_eq_some hb))
    refine .handle hguarded (fun r _ hr => ?_) rfl
    rcases r with i | u
    · cases i with
      | stopped => exact composed_interrupt (hr _ rfl)
      | _ =>
        exact composed_part_bind fun b hb => .bind (hrun hb) fun _ => composed_interrupt (hr _ rfl)
    · exact composed_part_bind fun b hb => hrun hb

end

omit he in
/-- Cases are evaluated until one is the same as the discriminant. -/
theorem composed_matchingCase (discriminant : Value) {cs : List Node}
    (hcs : ∀ c ∈ cs, K.expression c) (i : Nat) :
    (matchingCase discriminant e cs i).Composed K t := by
  induction cs generalizing i with
  | nil => exact composed_pure none
  | cons c cs ih =>
    have hrest := ih (fun d hd => hcs d (List.mem_cons_of_mem c hd)) (i + 1)
    refine composed_ite (composed_part_bind fun value hvalue => ?_) hrest
    exact .bind (composed_eval e (hK.child? (hcs c List.mem_cons_self) hvalue)) fun _ =>
      composed_ite (composed_pure _) hrest

omit hK he in
theorem mem_caseStatements {c s : Node} (h : s ∈ caseStatements c) : s ∈ c.namedChildren := by
  unfold caseStatements at h
  split at h
  · exact h
  · exact (List.mem_filter.mp h).1

section

variable (hn : K.confined t labels n)

include hn

omit he in
/-- A signal to the switch ends here. -/
theorem composed_execSwitch (hkind : n.kind = .switchStatement) :
    (execSwitch n e labels).Composed K t := by
  unfold execSwitch
  refine composed_part_bind fun value hvalue =>
    .bind (composed_eval e (hK.child? (Means.expression_of_confined hn) hvalue)) fun discriminant =>
    composed_part_bind fun body hbody => ?_
  extract_lets cases
  have hcases : ∀ c ∈ cases, K.confined (t.insideSwitch labels) [] c := fun c hc =>
    hK.insideSwitch hn hkind hbody (List.mem_filter.mp hc).1
  have hstatements : ∀ c ∈ cases, ∀ s ∈ caseStatements c,
      K.confined (t.insideSwitch labels) [] s := by
    intro c hc s hs
    have hplain : Targets.changes c.kind = false := by
      have hkind := (List.mem_filter.mp hc).2
      simp only [Bool.or_eq_true, beq_iff_eq] at hkind
      rcases hkind with hkind | hkind <;> rw [hkind] <;> rfl
    exact hK.plainNamed (hcases c hc) hplain (mem_caseStatements hs)
  refine composed_childScope_bind fun inside hinside => .bind (composed_each_of_mem fun c hc =>
    composed_hoistBlock hK hinside fun s hs => Means.expression_of_confined (hstatements c hc s hs))
      fun _ => ?_
  extract_lets rest
  have hrest (start) : (rest start).Composed K t := by
    unfold rest
    split
    · exact composed_pure ()
    · refine .handle (composed_each_of_mem fun c hc =>
        composed_execAll hinside (hstatements c (List.mem_of_mem_drop hc))) (fun r _ hr => ?_) rfl
      rcases r with i | u
      · have hpass (hleft : ∀ l, i = .left l → owns labels l = false) :
            (interrupt i : Action Unit).Composed K t :=
          composed_interrupt ((hr i rfl).imp_right fun h => Targets.admits_of_insideSwitch h hleft)
        cases i with
        | left label =>
          refine composed_ite_of (fun _ => composed_pure ()) fun howns => ?_
          exact hpass fun l hl => by cases hl; simpa using howns
        | _ => exact hpass nofun
      · exact composed_pure ()
  have hmatching : (matchingCase discriminant inside cases 0).Composed K t :=
    composed_matchingCase hK discriminant
      (fun c hc => Means.expression_of_confined (hcases c hc)) 0
  grind

/-- A signal to the statement itself ends here, or in what takes over its labels. -/
theorem composed_execLabeledStatement (hkind : n.kind = .labeledStatement) :
    (execLabeledStatement n e labels).Composed K t := by
  refine composed_part_bind fun label hlabel => composed_textOf_bind fun s hs => ?_
  extract_lets labels'
  refine composed_part_bind fun body hbody => ?_
  have hbefore : Targets.labelsBefore s labels n = labels' := by
    simp [Targets.labelsBefore, hlabel, labels']
  have hinside := hK.confined hs hn body (List.mem_of_find?_eq_some hbody)
  rw [Targets.ofChild_of_labeled hkind, hbefore] at hinside
  refine composed_ite_of (fun htakes => ?_) fun htakes => ?_
  · rw [if_pos htakes] at hinside
    exact composed_execLabeled he hinside
  · rw [if_neg htakes] at hinside
    refine .handle (composed_exec he hinside) (fun r _ hr => ?_) rfl
    rcases r with i | u
    · have hpass (hleft : ∀ l, i = .left (some l) → l ∉ labels') :
          (interrupt i : Action Unit).Composed K t :=
        composed_interrupt ((hr i rfl).imp_right fun h => Targets.admits_of_labeled h hleft)
      cases i with
      | left label =>
        cases label with
        | none => exact hpass nofun
        | some l =>
          refine composed_ite_of (fun _ => composed_pure ()) fun hl => ?_
          exact hpass fun m hm => by cases hm; simpa using hl
      | _ => exact hpass nofun
    · exact composed_pure ()

/-- Every statement is composed where its tree is confined. -/
theorem composed_execute : (execute n e labels).Composed K t := by
  have hexpression := Means.expression_of_confined hn
  have hnothing : (pure () : Action Unit).Composed K t := composed_pure ()
  unfold execute
  split
  · cases hx : n.namedChildren.head? with
    | none => exact hnothing
    | some x => exact .bind (composed_eval e (hK.firstChild hexpression hx)) fun _ => hnothing
  · exact composed_execDeclaration hK he hexpression
  · exact composed_execDeclaration hK he hexpression
  · next hkind => exact composed_execBlock hK hn (by rw [hkind]; rfl)
  · next hkind => exact composed_execIf hK he hn hkind
  · next hkind => exact composed_execWhile hK he hn (by rw [hkind]; rfl)
  · next hkind => exact composed_execDo hK he hn (by rw [hkind]; rfl)
  · next hkind => exact composed_execFor hK hn (by rw [hkind]; rfl)
  · next hkind => exact composed_execForIn hK he hn (by rw [hkind]; rfl)
  · next hkind => exact composed_execReturn hK hn hkind
  · next hkind => exact composed_execBreak hK hn hkind
  · next hkind => exact composed_execContinue hK hn hkind
  · exact composed_part_bind fun x hx =>
      .bind (composed_eval e (hK.firstChild hexpression hx)) fun _ => composed_interrupt (.inr trivial)
  · next hkind => exact composed_execTry hK he hn hkind
  · next hkind => exact composed_execSwitch hK hn hkind
  · next hkind => exact composed_execLabeledStatement hK he hn hkind
  · exact hnothing
  · exact hnothing
  · exact hnothing
  · exact hnothing
  · exact hnothing
  · exact hnothing
  · refine .bind (composed_evalClass e hK hexpression) fun v => ?_
    cases v with
    | object r => exact .bind (composed_object r) fun _ => composed_declare he ..
    | _ => exact composed_fault _
  · exact composed_raise ..
  · exact composed_raise ..
  · exact composed_raise ..

end

end Action
end Stepper.Machine
