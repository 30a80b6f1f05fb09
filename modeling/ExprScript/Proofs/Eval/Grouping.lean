import ExprScript.Proofs.Eval.Compare
import ExprScript.Proofs.Tree.Shown

/-!
# Evaluation without grouping

A program is evaluated with and without its grouping, side by side.  Functions that it makes lack
the grouping on one side; what a session brought along is the same on both.  The two evaluations
come to the same but for two things: parentheses count against the limit, and a built-in function
whose name stands in parentheses is called by what the name is bound to.
-/

namespace ExprScript

open Stateful

/-- Serial numbers are related as they are said to be.  A body is the other one, or the other one
lies in a region and the body lacks its grouping. -/
def Shedding (N : Serial → Serial → Prop) (V : Node → Prop) : Likeness where
  serial := N
  body s t := ∃ kept, (kept = false → V (.stmt s)) ∧ t = s.recast id kept

/-- Bodies may lack their grouping, and serial numbers are the same. -/
abbrev Sheds (V : Node → Prop) : Likeness := Shedding Eq V

variable {N : Serial → Serial → Prop} {V : Node → Prop} {slack : Nat} {lead : Leader}
  {limit limit' : Nat}

theorem shedding_refl (hN : ∀ i, N i i) :
  (Shedding N V).Reflexive
  := ⟨hN, fun s => ⟨true, nofun, s.recast_id.symm⟩⟩

theorem sheds_refl :
  (Sheds V).Reflexive
  := shedding_refl fun _ => rfl

theorem Sheds.texts_eq {s t : Stmt} (h : (Shedding N V).body s t) :
  Stmt.texts s.statements = Stmt.texts t.statements
  := by
  obtain ⟨kept, -, rfl⟩ := h
  rw [Stmt.statements_recast, ← Stmt.recastAll_eq_map, Stmt.texts_recastAll]

/-! ### Showing values -/

namespace Region

theorem within (hV : Region V slack) {x n : Node} (h : x.Within n) (hn : V n) :
  V x
  := by
  induction h with
  | refl => apply hn
  | part hc _ ih => apply ih (hV.part hn hc)

theorem agrees_body (hV : Region V slack) {s t : Stmt} (h : (Shedding N V).body s t)
    (hc : lead.Covers slack 0 limit limit') :
  lead.Agrees (some .exhausted) (s.statements.findSome? (Stmt.fault? limit))
    (t.statements.findSome? (Stmt.fault? limit'))
  := by
  obtain ⟨kept, hs, rfl⟩ := h
  rw [Stmt.statements_recast]
  apply Leader.agrees_findSome?
  rw [List.forall₂_map_right_iff, List.forall₂_same]
  intro x hx
  exact hV.agrees_fault? (n := .stmt x)
    (fun h => hV.within (Node.within_of_statements hx) (hs h)) hc

/-- The same stands in the way of showing alike values, but for the limit. -/
theorem agrees_value (hV : Region V slack) {v w : Value} (hvw : v.Alike (Shedding N V) w)
    (hc : lead.Covers slack 0 limit limit') :
  lead.Agrees (some .exhausted) (v.fault? limit) (w.fault? limit')
  := by
  induction limit generalizing v w limit' with
  | zero =>
      rcases hc.cases with ⟨rfl, -⟩ | ⟨rfl, rfl⟩ | ⟨_, _, h, -⟩
      · exact .grouped
      · exact .ungrouped
      · cases h
  | succ limit ih =>
      rcases hc.cases with ⟨-, h⟩ | ⟨rfl, rfl⟩ | ⟨_, limit', h, rfl⟩
      · cases h
      · exact .ungrouped
      · cases h
        have hpart : lead.Covers slack 0 limit limit' := hc.part (Nat.zero_le slack)
        cases hvw with
        | int | bool | str | builtin | unit => exact .same none
        | returned hvw => apply ih hvw hpart
        | fn hcd => apply hV.agrees_body hcd.body hpart
        | array _ hlength h =>
            apply Leader.agrees_findSome?
            rw [List.forall₂_iff_zip]
            exact ⟨hlength, fun hvw => ih (h hvw) hpart⟩
        | map _ hlength _ h =>
            apply Leader.agrees_findSome?
            rw [List.forall₂_iff_zip]
            exact ⟨hlength, fun hpq => ih (h hpq) hpart⟩

theorem agrees_printed (hV : Region V slack) {v w : Value} (hvw : v.Alike (Shedding N V) w)
    (hc : lead.Covers slack 0 limit limit') :
  lead.Agrees (.error .exhausted) (v.printed limit) (w.printed limit')
  := by
  have hrender : lead.Agrees (.error .exhausted) (v.render limit) (w.render limit') := by
    rw [Value.render, Value.render, hvw.text_eq Sheds.texts_eq]
    exact (hV.agrees_value hvw hc).map (RenderFault.unless · w.text)
  cases hvw with
  | str s => exact .same (Except.ok s)
  | _ => apply hrender

theorem agrees_line (hV : Region V slack) {args args' : List Value}
    (h : List.Forall₂ (Value.Alike (Shedding N V)) args args')
    (hc : lead.Covers slack 0 limit limit') :
  lead.Agrees (.error .exhausted) (Builtin.line limit args) (Builtin.line limit' args')
  := by
  have hall := Leader.agrees_mapM (h.imp fun v w hvw => hV.agrees_printed hvw hc)
  exact hall.map ((" ".intercalate ·) <$> ·)

end Region

/-! ### Built-in functions whose name stands in parentheses -/

/-- The name is bound, and not to the built-in function of that name. -/
def Machine.Shadows (m : Machine) (name : String) : Prop :=
  ∃ v, m.heap.get? m.cursor name = some v ∧ v ≠ .builtin name

/-- The name that a node calls in parentheses, if it is that of a built-in function. -/
def Node.groupedBuiltin? : Node → Option String
  | .expr (.call _ callee _) => callee.groupedName?.filter fun n => (Builtin.ofName? n).isSome
  | _ => none

namespace Eval

/-- Wherever the evaluation of a node comes to a call in the region of a built-in function whose
name stands in parentheses, the name is not shadowed. -/
def Unshadowed (V : Node → Prop) (limit : Nat) (n : Node) (m : Machine) : Prop :=
  ∀ calls limit' n' m' name, Reaches calls limit n m limit' n' m' → V n' →
    n'.groupedBuiltin? = some name → ¬ m'.Shadows name

theorem Unshadowed.enters {calls : Nat} {n n₁ : Node} {m m₁ : Machine}
    (h : Unshadowed V (limit + 1) n m) (he : Enters limit calls n m n₁ m₁) :
  Unshadowed V limit n₁ m₁
  := by
  intro calls' limit' n' m' name hreaches
  apply h _ _ _ _ _ (.step he hreaches)

/-- Without its parentheses a callee names the same built-in function outright, or none, unless the
name stands in parentheses. -/
theorem directBuiltin?_recast_id (callee : Expr) (kept : Bool) :
  directBuiltin? (callee.recast id kept) = directBuiltin? callee
    ∨ kept = false ∧ directBuiltin? callee = none
      ∧ ∃ name b, callee.groupedName? = some name ∧ Builtin.ofName? name = some b
        ∧ directBuiltin? (callee.recast id kept) = some b
  := by
  have hungrouped : ∀ p e, directBuiltin? (Expr.recast id false e)
      = (Expr.group p e).groupedName?.bind Builtin.ofName? := by
    intro p e
    induction e using Expr.groups.induct generalizing p with
    | case1 p' e ih => exact ih p'
    | case2 e h =>
        cases e with
        | group p' e => exact absurd rfl (h p' e)
        | _ => rfl
  cases callee with
  | group p e =>
      cases kept with
      | true => exact .inl rfl
      | false =>
          have hcallee := hungrouped p e
          cases hname : (Expr.group p e).groupedName? with
          | none =>
              rw [hname] at hcallee
              exact .inl hcallee
          | some name =>
              rw [hname] at hcallee
              cases hb : Builtin.ofName? name with
              | none => exact .inl (hcallee.trans hb)
              | some b => exact .inr ⟨rfl, rfl, name, b, rfl, hb, hcallee.trans hb⟩
  | _ => exact .inl rfl

theorem run_name_of_not_shadows {name : String} {b : Builtin} (hb : Builtin.ofName? name = some b)
    {m : Machine} (hm : ¬ m.Shadows name) (pos : Option Pos) :
  (Eval.name pos name).run m = .ok (.builtin name) m
  := by
  have hlookup : (lookup? name).run m = .ok (m.heap.get? m.cursor name) m := rfl
  rw [Eval.name, run_bind_of_ok hlookup]
  cases hv : m.heap.get? m.cursor name with
  | none =>
      dsimp only
      rw [hb]
      rfl
  | some v =>
      have hbuiltin : v = .builtin name := by
        by_contra hne
        exact hm ⟨v, hv, hne⟩
      rw [hbuiltin]
      rfl

/-- The name of a built-in function in parentheses stands for the function, if it is not shadowed
and the limit goes as far as the name. -/
theorem run_groupedName {callee : Expr} {name : String} {b : Builtin}
    (h : callee.groupedName? = some name) (hb : Builtin.ofName? name = some b) {m : Machine}
    (hm : ¬ m.Shadows name) (limit : Nat) :
  (expression limit callee).run m = .ok (.builtin name) m
    ∨ limit ≤ callee.groups ∧ (expression limit callee).run m = .error .exhausted m
  := by
  induction callee using Expr.groupedName?.induct generalizing limit with
  | case1 p p' n =>
      cases h
      cases limit with
      | zero =>
          rw [expression]
          exact .inr ⟨Nat.zero_le _, rfl⟩
      | succ limit =>
          rw [expression]
          cases limit with
          | zero =>
              rw [expression]
              exact .inr ⟨Nat.le_refl _, rfl⟩
          | succ limit =>
              rw [expression]
              exact .inl (run_name_of_not_shadows hb hm p')
  | case2 p e hident ih =>
      rw [Expr.groupedName?] at h
      · cases limit with
        | zero =>
            rw [expression]
            exact .inr ⟨Nat.zero_le _, rfl⟩
        | succ limit =>
            rw [expression]
            rcases ih h limit with hrun | ⟨hle, hrun⟩
            · exact .inl hrun
            · exact .inr ⟨Nat.succ_le_succ hle, hrun⟩
      · apply hident
  | case3 e hgroup hgroup' =>
      rw [Expr.groupedName?] at h
      · cases h
      · apply hgroup
      · apply hgroup'

/-! ### Nodes -/

/-- Within a limit, leaving out the grouping in a region makes no difference for any node. -/
def Follows (N : Serial → Serial → Prop) (V : Node → Prop) (slack : Nat) (lead : Leader)
    (limit : Nat) : Prop :=
  ∀ {n kept limit' m m'}, (kept = false → V n) → lead.Covers slack (n.shed kept) limit limit' →
    m.Alike (Shedding N V) m' → Unshadowed V limit n m →
    Ends (Shedding N V) (Value.Alike (Shedding N V)) lead ((node limit n).run m)
      ((node limit' (n.recast id kept)).run m')

/-- What is known when two evaluations of a node are compared whose parts follow each other. -/
structure Setting (N : Serial → Serial → Prop) (V : Node → Prop) (slack : Nat) (lead : Leader)
    (limit limit' : Nat) (kept : Bool) (n : Node) (m m' : Machine) : Prop where
  numbers : ∀ i, N i i
  region : Region V slack
  follows : Follows N V slack lead limit
  inside : kept = false → V n
  covers : lead.Covers slack 0 (limit + 1) (limit' + 1)
  states : m.Alike (Shedding N V) m'
  unshadowed : Unshadowed V (limit + 1) n m

namespace Setting

variable {kept : Bool} {n : Node} {m m' m₁ m₁' : Machine}

theorem part (h : Setting N V slack lead limit limit' kept n m m') {c : Node}
    (he : Enters limit 0 n m c m₁) (hm : m₁.Alike (Shedding N V) m₁') :
  Ends (Shedding N V) (Value.Alike (Shedding N V)) lead ((node limit c).run m₁)
    ((node limit' (c.recast id kept)).run m₁')
  := by
  have hinside : kept = false → V c :=
    fun hk => h.region.part (h.inside hk) (Node.mem_parts_of_children he.mem_children)
  exact h.follows hinside (h.covers.part (h.region.shed_le hinside)) hm (h.unshadowed.enters he)

theorem expr (h : Setting N V slack lead limit limit' kept n m m') {e : Expr}
    (he : Enters limit 0 n m (.expr e) m₁) (hm : m₁.Alike (Shedding N V) m₁') :
  Ends (Shedding N V) (Value.Alike (Shedding N V)) lead ((expression limit e).run m₁)
    ((expression limit' (e.recast id kept)).run m₁')
  := h.part he hm

theorem stmt (h : Setting N V slack lead limit limit' kept n m m') {s : Stmt}
    (he : Enters limit 0 n m (.stmt s) m₁) (hm : m₁.Alike (Shedding N V) m₁') :
  Ends (Shedding N V) (Value.Alike (Shedding N V)) lead ((statement limit s).run m₁)
    ((statement limit' (s.recast id kept)).run m₁')
  := h.part he hm

theorem covers_parts (h : Setting N V slack lead limit limit' kept n m m') :
  lead.Covers slack 0 limit limit'
  := h.covers.part (Nat.zero_le slack)

theorem builtin (h : Setting N V slack lead limit limit' kept n m m') (pos : Option Pos)
    {args args' : List Value} (hargs : List.Forall₂ (Value.Alike (Shedding N V)) args args')
    (hm : m₁.Alike (Shedding N V) m₁') (b : Builtin) :
  Ends (Shedding N V) (Value.Alike (Shedding N V)) lead ((b.call limit pos args).run m₁)
    ((b.call limit' pos args').run m₁')
  := ends_builtin hm pos hargs (h.region.agrees_line hargs h.covers_parts) b

/-- A callee that is not a function is shown in the error. -/
theorem render {pos : Option Pos} {callee : Expr} {args : List Expr}
    (h : Setting N V slack lead limit limit' kept (.expr (.call pos callee args)) m m') :
  lead.Agrees (.error .exhausted) (callee.render limit) ((callee.recast id kept).render limit')
  := by
  have hinside : kept = false → V (.expr callee) :=
    fun hk => h.region.part (h.inside hk) List.mem_cons_self
  have hfault := h.region.agrees_fault? hinside (h.covers.part (h.region.shed_le hinside))
  rw [Expr.render, Expr.render, Expr.text_recast]
  exact hfault.map (RenderFault.unless · callee.text)

/-- A closure lacks its grouping or not, whatever the node that calls it. -/
theorem invoke {pos : Option Pos} {callee : Expr} {args : List Expr}
    (h : Setting N V slack lead limit limit' kept (.expr (.call pos callee args)) m m')
    (hdirect : directBuiltin? callee = none) {c d : Closure} (hcd : c.Alike (Shedding N V) d)
    (hcallee : Yields limit (.expr callee) m (.fn c) m₁)
    (hlength : args.length = c.parameters.length)
    {vs ws : List Value} {m₂ m₂' : Machine} (hvs : YieldsAll limit args m₁ vs m₂)
    (hvw : List.Forall₂ (Value.Alike (Shedding N V)) vs ws) (hm : m₂.Alike (Shedding N V) m₂') :
  Ends (Shedding N V) (Value.Alike (Shedding N V)) lead
    ((Eval.invoke (statement limit) c vs).run m₂) ((Eval.invoke (statement limit') d ws).run m₂')
  := by
  obtain ⟨kept', hbody, hd⟩ := hcd.body
  apply ends_invoke hm
  rw [hd, Stmt.statements_recast]
  apply ends_runAll (hm.call hcd hvw) .unit
  intro s m₃ m₃' hb hm₃
  have hinside : kept' = false → V (.stmt s) :=
    fun hk => h.region.within (Node.within_of_statements hb.mem_stmt) (hbody hk)
  have hunshadowed : Unshadowed V limit (.stmt s) m₃ :=
    h.unshadowed.enters (.body hdirect hcallee hlength hvs hb)
  have hends : Ends _ _ lead ((node limit (.stmt s)).run m₃) _ :=
    h.follows hinside h.covers_parts hm₃ hunshadowed
  exact hends

/-- A built-in function whose name stands in parentheses is called as if it were named outright,
because the name is not shadowed. -/
theorem grouped_builtin {pos : Option Pos} {callee : Expr} {args : List Expr}
    (h : Setting N V slack lead limit limit' false (.expr (.call pos callee args)) m m')
    (hdirect : directBuiltin? callee = none) {name : String} {b : Builtin}
    (hname : callee.groupedName? = some name) (hb : Builtin.ofName? name = some b)
    (hdirect' : directBuiltin? (callee.recast id false) = some b) :
  Ends (Shedding N V) (Value.Alike (Shedding N V)) lead
    ((expression (limit + 1) (.call pos callee args)).run m)
    ((expression (limit' + 1) ((Expr.call pos callee args).recast id false)).run m')
  := by
  have hshadows : ¬ m.Shadows name := by
    apply h.unshadowed _ _ _ _ _ .refl (h.inside rfl)
    rw [Node.groupedBuiltin?, hname, Option.filter_some, hb]
    rfl
  rw [Expr.recast, Expr.recastAll_eq_map, expression, expression, hdirect, hdirect']
  rcases run_groupedName hname hb hshadows limit with hrun | ⟨hle, hrun⟩
  · have hyields : Yields limit (.expr callee) m (.builtin name) m := ⟨hrun, rfl⟩
    rw [run_bind_of_ok hrun]
    simp only [proceed, Value.isReturned, Bool.false_eq_true, if_false, hb]
    apply ends_withAll h.states
    · intro e m₁ m₁' hbegins hm₁
      apply h.expr (.argument hdirect hyields trivial hbegins) hm₁
    · intro vs ws m₁ m₁' _ hvw hm₁
      apply h.builtin pos hvw hm₁
  · rw [run_bind_of_error hrun]
    cases lead with
    | grouped => exact .grouped
    | ungrouped =>
        have hgroups : callee.groups < slack :=
          h.region.groups (h.region.part (h.inside rfl) List.mem_cons_self)
        have hcovers : (limit' + 1) * (slack + 1) + 0 ≤ limit + 1 := h.covers
        rw [Nat.succ_mul] at hcovers
        omega

theorem call {pos : Option Pos} {callee : Expr} {args : List Expr}
    (h : Setting N V slack lead limit limit' kept (.expr (.call pos callee args)) m m') :
  Ends (Shedding N V) (Value.Alike (Shedding N V)) lead
    ((expression (limit + 1) (.call pos callee args)).run m)
    ((expression (limit' + 1) ((Expr.call pos callee args).recast id kept)).run m')
  := by
  rcases directBuiltin?_recast_id callee kept with
    hsame | ⟨rfl, hdirect, name, b, hname, hb, hdirect'⟩
  · rw [Expr.recast, Expr.recastAll_eq_map, expression, expression, hsame]
    cases hdirect : directBuiltin? callee with
    | some b =>
        apply ends_withAll h.states
        · intro e m₁ m₁' hbegins hm₁
          apply h.expr (enters_argument hdirect hbegins) hm₁
        · intro vs ws m₁ m₁' _ hvw hm₁
          apply h.builtin pos hvw hm₁
    | none =>
        apply (h.expr (enters_callee hdirect) h.states).proceed
        intro f f' m₁ m₁' hrun hret hf hm₁
        have hyields : Yields limit (.expr callee) m f m₁ := ⟨hrun, hret⟩
        have hkind := hf.kind_eq
        cases hf with
        | fn hcd =>
            dsimp only
            rw [← hcd.parameters, List.length_map]
            split
            · rename_i hlength
              apply ends_withAll hm₁
              · intro e m₂ m₂' hbegins hm₂
                apply h.expr (.argument hdirect hyields hlength hbegins) hm₂
              · intro vs ws m₂ m₂' hvs hvw hm₂
                apply h.invoke hdirect hcd hyields hlength hvs hvw hm₂
            · exact .fault hm₁
        | builtin n =>
            apply ends_withAll hm₁
            · intro e m₂ m₂' hbegins hm₂
              apply h.expr (.argument hdirect hyields trivial hbegins) hm₂
            · intro vs ws m₂ m₂' _ hvw hm₂
              cases Builtin.ofName? n with
              | some b => apply h.builtin pos hvw hm₂
              | none => exact .fault hm₂
        | _ =>
            dsimp only
            apply (ends_orRenderFault hm₁ h.render).bind
            rintro text _ m₂ m₂' - rfl hm₂
            rw [hkind]
            exact .fault hm₂
  · apply h.grouped_builtin hdirect hname hb hdirect'

theorem binary {pos : Option Pos} {left : Expr} {op : BinaryOp} {right : Expr}
    (h : Setting N V slack lead limit limit' kept (.expr (.binary pos left op right)) m m') :
  Ends (Shedding N V) (Value.Alike (Shedding N V)) lead
    ((expression (limit + 1) (.binary pos left op right)).run m)
    ((expression (limit' + 1) ((Expr.binary pos left op right).recast id kept)).run m')
  := by
  cases op with
  | and =>
      rw [Expr.recast, expression, expression]
      apply ends_shortCircuit
      · apply h.expr (.opening .head) h.states
      · intro m₁ m₁' hyields hm₁
        apply h.expr (.and hyields) hm₁
  | or =>
      rw [Expr.recast, expression, expression]
      apply ends_shortCircuit
      · apply h.expr (.opening .head) h.states
      · intro m₁ m₁' hyields hm₁
        apply h.expr (.or hyields) hm₁
  | _ =>
      simp only [Expr.recast, expression]
      apply (h.expr (.opening .head) h.states).proceed
      intro v w m₁ m₁' hrun hret hvw hm₁
      apply (h.expr (.opening (.tail ⟨hrun, hret⟩ .head)) hm₁).proceed
      intro v' w' m₂ m₂' _ _ hvw' hm₂
      apply ends_orFail hm₂ pos
      apply Value.respected_alike.binary _ hvw hvw'

theorem cond {pos : Option Pos} {condition : Expr} {consequence : Stmt} {alternative : Option Stmt}
    (h : Setting N V slack lead limit limit' kept
      (.expr (.cond pos condition consequence alternative)) m m') :
  Ends (Shedding N V) (Value.Alike (Shedding N V)) lead
    ((expression (limit + 1) (.cond pos condition consequence alternative)).run m)
    ((expression (limit' + 1)
      ((Expr.cond pos condition consequence alternative).recast id kept)).run m')
  := by
  rw [Expr.recast, expression, expression]
  apply (h.expr (.opening .head) h.states).proceed
  intro v w m₁ m₁' hrun hret hvw hm₁
  have hkind := hvw.kind_eq
  cases hvw with
  | bool b =>
      cases b with
      | true => apply h.stmt (.consequence ⟨hrun, hret⟩) hm₁
      | false =>
          cases alternative with
          | some s => apply h.stmt (.alternative ⟨hrun, hret⟩) hm₁
          | none => exact .ok .unit hm₁
  | _ =>
      simp only [hkind]
      exact .fault hm₁

/-- Going on from parts to an expression that is not a pair of parentheses to be left out. -/
theorem expression_of_shed {e : Expr}
    (h : Setting N V slack lead limit limit' kept (.expr e) m m')
    (hshed : (Node.expr e).shed kept = 0) :
  Ends (Shedding N V) (Value.Alike (Shedding N V)) lead ((expression (limit + 1) e).run m)
    ((expression (limit' + 1) (e.recast id kept)).run m')
  := by
  cases e with
  | int pos n =>
      rw [Expr.recast, expression, expression]
      exact .ok (.int n) h.states
  | bool pos b =>
      rw [Expr.recast, expression, expression]
      exact .ok (.bool b) h.states
  | str pos s =>
      rw [Expr.recast, expression, expression]
      exact .ok (.str s) h.states
  | ident pos n =>
      rw [Expr.recast, expression, expression]
      apply ends_name h.states
  | group pos inner =>
      cases kept with
      | false => cases hshed
      | true =>
          rw [Expr.recast, if_pos rfl, expression, expression]
          apply h.expr (.opening .head) h.states
  | array pos es =>
      rw [Expr.recast, Expr.recastAll_eq_map, expression, expression]
      apply ends_withAll h.states
      · intro e m₁ m₁' hbegins hm₁
        apply h.expr (.opening hbegins) hm₁
      · intro vs ws m₁ m₁' _ hvw hm₁
        apply ends_array hm₁ hvw
  | map pos entries =>
      have hkeys : (Expr.recastEntries id kept entries).map Prod.fst = entries.map Prod.fst := by
        rw [Expr.recastEntries_eq_map, List.map_map]
        rfl
      have hvalues : (Expr.recastEntries id kept entries).map Prod.snd
          = (entries.map Prod.snd).map (Expr.recast id kept) := by
        rw [Expr.recastEntries_eq_map, List.map_map, List.map_map]
        rfl
      rw [Expr.recast, expression, expression, hkeys, hvalues]
      apply ends_withAll h.states
      · intro e m₁ m₁' hbegins hm₁
        apply h.expr (.opening hbegins) hm₁
      · intro vs ws m₁ m₁' _ hvw hm₁
        apply ends_map hm₁ (Dict.alike_zip _ hvw)
  | unary pos op operand =>
      rw [Expr.recast, expression, expression]
      apply (h.expr (.opening .head) h.states).proceed
      intro v w m₁ m₁' _ _ hvw hm₁
      apply ends_orFail hm₁ pos (Value.respected_alike.unary op hvw)
  | binary pos left op right => apply h.binary
  | index pos collection position =>
      rw [Expr.recast, expression, expression]
      apply (h.expr (.opening .head) h.states).proceed
      intro v w m₁ m₁' hrun hret hvw hm₁
      apply (h.expr (.opening (.tail ⟨hrun, hret⟩ .head)) hm₁).proceed
      intro v' w' m₂ m₂' _ _ hvw' hm₂
      apply ends_orFail hm₂ pos (Value.respected_alike.index hvw hvw')
  | cond pos condition consequence alternative => apply h.cond
  | fn pos parameters body =>
      rw [Expr.recast, expression, expression]
      apply ends_close h.states
      exact ⟨kept, fun hk => h.region.part (h.inside hk) List.mem_cons_self, rfl⟩
  | call pos callee args => apply h.call
  | bare pos =>
      rw [Expr.recast, expression, expression]
      exact .fault h.states

theorem statement {s : Stmt} (h : Setting N V slack lead limit limit' kept (.stmt s) m m') :
  Ends (Shedding N V) (Value.Alike (Shedding N V)) lead ((Eval.statement (limit + 1) s).run m)
    ((Eval.statement (limit' + 1) (s.recast id kept)).run m')
  := by
  cases s with
  | bind pos n e =>
      rw [Stmt.recast, Eval.statement, Eval.statement]
      apply (h.expr (.opening .head) h.states).proceed
      intro v w m₁ m₁' _ _ hvw hm₁
      exact .ok .unit (hm₁.define n hvw)
  | ret pos e =>
      rw [Stmt.recast, Eval.statement, Eval.statement, run_get_bind, run_get_bind,
        ← h.states.depth]
      split
      · exact .fault h.states
      · rename_i hdepth
        apply (h.expr (.ret hdepth) h.states).bind
        intro v w m₁ m₁' _ hvw hm₁
        exact .ok (.returned hvw.content) hm₁
  | expr pos e =>
      rw [Stmt.recast, Eval.statement, Eval.statement]
      apply h.expr (.opening .head) h.states
  | block pos body =>
      rw [Stmt.recast, Stmt.recastAll_eq_map]
      apply ends_block h.states
      have hm := h.states.enter m.cursor (.nil (R := _)) m.depth
      rw [← h.states.cursor, ← h.states.depth]
      apply ends_runAll hm .unit
      intro s m₁ m₁' hbegins hm₁
      apply h.stmt (.block hbegins) hm₁
  | bare pos =>
      rw [Stmt.recast, Eval.statement, Eval.statement]
      exact .fault h.states

end Setting

theorem node_zero (n : Node) (m : Machine) :
  (node 0 n).run m = .error .exhausted m
  := by
  cases n with
  | expr e => rw [node, expression, run_throw]
  | stmt s => rw [node, statement, run_throw]

/-- Leaving out the grouping makes no difference for any node, within any limit. -/
theorem follows (hN : ∀ i, N i i) (hV : Region V slack) (lead : Leader) (limit : Nat) :
  Follows N V slack lead limit
  := by
  induction limit with
  | zero =>
      intro n kept limit' m m' _ hc _ _
      rcases hc.cases with ⟨rfl, -⟩ | ⟨rfl, rfl⟩ | ⟨_, _, h, -⟩
      · rw [node_zero]
        exact .grouped
      · rw [node_zero (n.recast id kept)]
        exact .ungrouped
      · cases h
  | succ limit ih =>
      intro n kept limit' m m' hn hc hm hu
      cases hshed : n.shed kept with
      | succ groups =>
          rw [hshed] at hc
          obtain ⟨rfl, p, e, rfl, rfl⟩ := Node.eq_group_of_shed hshed
          have hinside : false = false → V (.expr e) :=
            fun _ => hV.part (hn rfl) List.mem_cons_self
          rw [node, expression]
          exact ih hinside hc.group hm (hu.enters (.opening .head))
      | zero =>
          rw [hshed] at hc
          rcases hc.cases with ⟨-, h⟩ | ⟨rfl, rfl⟩ | ⟨_, limit', h, rfl⟩
          · cases h
          · rw [node_zero (n.recast id kept)]
            exact .ungrouped
          · cases h
            have hsetting : Setting N V slack lead limit limit' kept n m m' :=
              ⟨hN, hV, ih, hn, hc, hm, hu⟩
            cases n with
            | expr e => exact hsetting.expression_of_shed hshed
            | stmt s => exact hsetting.statement

/-! ### Programs -/

/-- Running statements of a region without their grouping makes no difference. -/
theorem ends_statements (hV : Region V slack) (hc : lead.Covers slack 0 limit limit')
    {ss : List Stmt} (hss : ∀ s ∈ ss, V (.stmt s)) {m m' : Machine} (hm : m.Alike (Sheds V) m')
    (hu : ∀ s m₁, Starts limit ss m s m₁ → Unshadowed V limit (.stmt s) m₁) :
  Ends (Sheds V) (List.Forall₂ (Value.Alike (Sheds V))) lead ((statements limit ss).run m)
    ((statements limit' (ss.map (Stmt.recast id false))).run m')
  := by
  induction ss generalizing m m' with
  | nil => exact .ok .nil hm
  | cons s ss ih =>
      have hinside : false = false → V (.stmt s) := fun _ => hss s List.mem_cons_self
      have hs : Ends _ _ lead ((node limit (.stmt s)).run m) _ :=
        follows (fun _ => rfl) hV lead limit hinside hc hm (hu s m starts_head)
      apply hs.bind
      intro v w m₁ m₁' hrun hvw hm₁
      have htail := ih (fun t ht => hss t (List.mem_cons_of_mem _ ht)) hm₁
        fun t m₂ hstarts => hu t m₂ (hstarts.tail hrun)
      apply htail.bind
      intro vs ws m₂ m₂' _ hvs hm₂
      exact .ok (.cons hvw hvs) hm₂

end Eval

end ExprScript
