import ExprScript.Proofs.Eval.Enter
import ExprScript.Proofs.Tree.Node

/-!
# What an evaluation reaches

The evaluation of a node begins evaluations of other nodes: of its parts, each in the state that
the ones before it leave, and of the statements of the closures it calls.  It applies operators,
built-in functions and closures to values.
-/

namespace ExprScript

/-- The parts of a node that are evaluated first, one after the other, whatever their values.
The value of a `return` and the statements of a block are not among them. -/
def Node.opening : Node → List Node
  | .expr (.array _ es) => es.map .expr
  | .expr (.map _ entries) => (entries.map Prod.snd).map .expr
  | .expr (.binary _ left .and _) | .expr (.binary _ left .or _) => [.expr left]
  | .expr (.binary _ left _ right) => [.expr left, .expr right]
  | .expr (.unary _ _ operand) => [.expr operand]
  | .expr (.index _ collection position) => [.expr collection, .expr position]
  | .expr (.group _ inner) => [.expr inner]
  | .expr (.call _ callee args) =>
    if (Eval.directBuiltin? callee).isSome then args.map .expr else [.expr callee]
  | .expr (.cond _ condition _ _) => [.expr condition]
  | .expr _ => []
  | .stmt (.bind _ _ e) | .stmt (.expr _ e) => [.expr e]
  | .stmt _ => []

theorem Node.mem_children_of_opening {n c : Node} (h : c ∈ n.opening) :
  c ∈ n.children
  := by
  unfold opening at h
  split at h
  · apply h
  · apply h
  · rw [List.mem_singleton.mp h]
    apply List.mem_cons_self
  · rw [List.mem_singleton.mp h]
    apply List.mem_cons_self
  · apply h
  · apply h
  · apply h
  · apply h
  · split at h
    · apply List.mem_cons_of_mem _ h
    · rw [List.mem_singleton.mp h]
      apply List.mem_cons_self
  · rw [List.mem_singleton.mp h]
    apply List.mem_cons_self
  · cases h
  · apply h
  · apply h
  · cases h

namespace Eval

/-- Evaluates a node. -/
def node (limit : Nat) : Node → Eval Value
  | .expr e => expression limit e
  | .stmt s => statement limit s

/-- Evaluating a node yields a value to go on with. -/
structure Yields (limit : Nat) (n : Node) (m : Machine) (v : Value) (m' : Machine) : Prop where
  run : (node limit n).run m = .ok v m'
  goes : v.isReturned = false

/-- Evaluating expressions one after the other yields values to go on with. -/
def YieldsAll (limit : Nat) (es : List Expr) (m : Machine) (vs : List Value) (m' : Machine) :
    Prop :=
  (gather (expression limit) es).run m = .ok (.values vs) m'

/-- When nodes are evaluated one after the other from `m`, the evaluation of one of them begins
in `m'`. -/
inductive Begins (limit : Nat) : List Node → Machine → Node → Machine → Prop
  | head {n ns m} : Begins limit (n :: ns) m n m
  | tail {n ns m v m₁ n' m'} : Yields limit n m v m₁ → Begins limit ns m₁ n' m' →
      Begins limit (n :: ns) m n' m'

/-- Whether a value can be called with a number of arguments, so that these are evaluated. -/
def Takes (arguments : Nat) : Value → Prop
  | .fn c => arguments = c.parameters.length
  | .builtin _ => True
  | _ => False

/-- The evaluation of a node from `m`, within one more than the limit, at once begins that of
another node from `m'`, within the limit and as part of a number of further calls. -/
inductive Enters (limit : Nat) : Nat → Node → Machine → Node → Machine → Prop
  | opening {n m n' m'} : Begins limit n.opening m n' m' → Enters limit 0 n m n' m'
  | ret {pos e m} : m.depth ≠ 0 → Enters limit 0 (.stmt (.ret pos e)) m (.expr e) m
  | block {pos body m n' m'} :
      Begins limit (body.map .stmt) (m.enter m.cursor [] m.depth) n' m' →
      Enters limit 0 (.stmt (.block pos body)) m n' m'
  | and {pos left right m m'} : Yields limit (.expr left) m (.bool true) m' →
      Enters limit 0 (.expr (.binary pos left .and right)) m (.expr right) m'
  | or {pos left right m m'} : Yields limit (.expr left) m (.bool false) m' →
      Enters limit 0 (.expr (.binary pos left .or right)) m (.expr right) m'
  | consequence {pos condition consequence alternative m m'} :
      Yields limit (.expr condition) m (.bool true) m' →
      Enters limit 0 (.expr (.cond pos condition consequence alternative)) m
        (.stmt consequence) m'
  | alternative {pos condition consequence alternative m m'} :
      Yields limit (.expr condition) m (.bool false) m' →
      Enters limit 0 (.expr (.cond pos condition consequence (some alternative))) m
        (.stmt alternative) m'
  | argument {pos callee args m f m₁ n' m'} : directBuiltin? callee = none →
      Yields limit (.expr callee) m f m₁ → Takes args.length f →
      Begins limit (args.map .expr) m₁ n' m' →
      Enters limit 0 (.expr (.call pos callee args)) m n' m'
  | body {pos callee args m c m₁ vs m₂ n' m'} : directBuiltin? callee = none →
      Yields limit (.expr callee) m (.fn c) m₁ → args.length = c.parameters.length →
      YieldsAll limit args m₁ vs m₂ →
      Begins limit (c.body.statements.map .stmt) (m₂.call c vs) n' m' →
      Enters limit 1 (.expr (.call pos callee args)) m n' m'

/-- The evaluation of a node from `m`, within a limit, comes to evaluate another node from `m'`,
within another limit and as part of a number of further calls. -/
inductive Reaches : Nat → Nat → Node → Machine → Nat → Node → Machine → Prop
  | refl {limit n m} : Reaches 0 limit n m limit n m
  | step {calls calls' limit n m n₁ m₁ limit' n' m'} : Enters limit calls n m n₁ m₁ →
      Reaches calls' limit n₁ m₁ limit' n' m' →
      Reaches (calls + calls') (limit + 1) n m limit' n' m'

/-- When statements are run from `m`, within a limit, one of them is run from `m'`. -/
inductive Starts (limit : Nat) (ss : List Stmt) (m : Machine) (s : Stmt) (m' : Machine) : Prop
  | intro {before after vs} : ss = before ++ s :: after →
      (statements limit before).run m = .ok vs m' → Starts limit ss m s m'

/-- Running statements from `m`, within a limit, comes to evaluate a node from `m'`, within
another limit and as part of a number of calls. -/
inductive Visits (limit : Nat) (ss : List Stmt) (m : Machine) (calls limit' : Nat) (n : Node)
    (m' : Machine) : Prop
  | intro {before s after vs m₁} : ss = before ++ s :: after →
      (statements limit before).run m = .ok vs m₁ →
      Reaches calls limit (.stmt s) m₁ limit' n m' → Visits limit ss m calls limit' n m'

/-- What is applied to values in the course of an evaluation. -/
inductive Application where
  | unary (op : UnaryOp) (operand : Value)
  | binary (op : BinaryOp) (left right : Value)
  | logical (op : BinaryOp) (operand : Value)
  | index (collection position : Value)
  | builtin (b : Builtin) (args : List Value)
  | closure (c : Closure) (args : List Value)

/-- The values that something is applied to. -/
def Application.arguments : Application → List Value
  | .unary _ v | .logical _ v => [v]
  | .binary _ v w | .index v w => [v, w]
  | .builtin _ args | .closure _ args => args

/-- The evaluation of a node from `m`, within one more than the limit, comes to apply something
in `m'`. -/
inductive Applies (limit : Nat) : Node → Machine → Application → Machine → Prop
  | unary {pos op operand m v m'} : Yields limit (.expr operand) m v m' →
      Applies limit (.expr (.unary pos op operand)) m (.unary op v) m'
  | binary {pos left op right m v m₁ w m'} : op ≠ .and → op ≠ .or →
      Yields limit (.expr left) m v m₁ → Yields limit (.expr right) m₁ w m' →
      Applies limit (.expr (.binary pos left op right)) m (.binary op v w) m'
  | logical {pos left op right m n m₁ v m'} : op = .and ∨ op = .or →
      Enters limit 0 (.expr (.binary pos left op right)) m n m₁ → Yields limit n m₁ v m' →
      Applies limit (.expr (.binary pos left op right)) m (.logical op v) m'
  | index {pos collection position m v m₁ w m'} : Yields limit (.expr collection) m v m₁ →
      Yields limit (.expr position) m₁ w m' →
      Applies limit (.expr (.index pos collection position)) m (.index v w) m'
  | direct {pos callee args m b vs m'} : directBuiltin? callee = some b →
      YieldsAll limit args m vs m' →
      Applies limit (.expr (.call pos callee args)) m (.builtin b vs) m'
  | builtin {pos callee args m name m₁ b vs m'} : directBuiltin? callee = none →
      Yields limit (.expr callee) m (.builtin name) m₁ → YieldsAll limit args m₁ vs m' →
      Builtin.ofName? name = some b →
      Applies limit (.expr (.call pos callee args)) m (.builtin b vs) m'
  | closure {pos callee args m c m₁ vs m'} : directBuiltin? callee = none →
      Yields limit (.expr callee) m (.fn c) m₁ → args.length = c.parameters.length →
      YieldsAll limit args m₁ vs m' →
      Applies limit (.expr (.call pos callee args)) m (.closure c vs) m'

/-! ### Parts -/

theorem Begins.mem {limit : Nat} {ns : List Node} {m m' : Machine} {n : Node}
    (h : Begins limit ns m n m') :
  n ∈ ns
  := by
  induction h with
  | head => apply List.mem_cons_self
  | tail _ _ ih => apply List.mem_cons_of_mem _ ih

theorem Begins.mem_stmt {limit : Nat} {ss : List Stmt} {m m' : Machine} {s : Stmt}
    (h : Begins limit (ss.map .stmt) m (.stmt s) m') :
  s ∈ ss
  := by
  obtain ⟨s', hs', hs⟩ := List.mem_map.mp h.mem
  cases hs
  apply hs'

/-- A closure that is applied runs the statements of its body. -/
theorem Applies.enters_body {limit : Nat} {n n' : Node} {m m₁ m' : Machine} {c : Closure}
    {vs : List Value} (h : Applies limit n m (.closure c vs) m₁)
    (hb : Begins limit (c.body.statements.map .stmt) (m₁.call c vs) n' m') :
  Enters limit 1 n m n' m'
  := by
  cases h with
  | closure hdirect hcallee hlength hvs => exact .body hdirect hcallee hlength hvs hb

/-- What is entered outside of further calls is a part of the node. -/
theorem Enters.mem_children {limit : Nat} {n n' : Node} {m m' : Machine}
    (h : Enters limit 0 n m n' m') :
  n' ∈ n.children
  := by
  cases h with
  | opening hb => apply Node.mem_children_of_opening hb.mem
  | ret _ => apply List.mem_cons_self
  | block hb => apply hb.mem
  | and _ | or _ | consequence _ => apply List.mem_cons_of_mem _ List.mem_cons_self
  | alternative _ => apply List.mem_cons_of_mem _ (List.mem_cons_of_mem _ List.mem_cons_self)
  | argument _ _ _ hb => apply List.mem_cons_of_mem _ hb.mem

/-- The first statement is run at once. -/
theorem starts_head {limit : Nat} {s : Stmt} {ss : List Stmt} {m : Machine} :
  Starts limit (s :: ss) m s m
  := ⟨(List.nil_append (s :: ss)).symm, rfl⟩

/-- The statements after the first one are run when it has yielded a value. -/
theorem Starts.tail {limit : Nat} {s t : Stmt} {ss : List Stmt} {m m₁ m' : Machine} {v : Value}
    (hrun : (statement limit s).run m = .ok v m₁) (h : Starts limit ss m₁ t m') :
  Starts limit (s :: ss) m t m'
  := by
  obtain @⟨before, after, vs, rfl, hbefore⟩ := h
  have hrun : (statements limit (s :: before)).run m = .ok (v :: vs) m' := by
    rw [statements, Stateful.run_bind_of_ok hrun, Stateful.run_bind_of_ok hbefore]
    rfl
  exact ⟨(List.cons_append ..).symm, hrun⟩

/-- What running one statement comes to evaluate is reached from it. -/
theorem Visits.reaches {limit calls limit' : Nat} {s : Stmt} {n : Node} {m m' : Machine}
    (h : Visits limit [s] m calls limit' n m') :
  Reaches calls limit (.stmt s) m limit' n m'
  := by
  obtain @⟨before, _, _, _, _, hss, hbefore, hreaches⟩ := h
  cases before with
  | cons _ before => cases before <;> cases hss
  | nil =>
      cases hss
      cases hbefore
      apply hreaches

/-- What is called is evaluated first, unless it names a built-in function outright. -/
theorem enters_callee {limit : Nat} {pos : Option Pos} {callee : Expr} {args : List Expr}
    {m : Machine} (h : directBuiltin? callee = none) :
  Enters limit 0 (.expr (.call pos callee args)) m (.expr callee) m
  := by
  apply Enters.opening
  rw [Node.opening, h]
  exact .head

/-- The arguments of a built-in function that is named outright are evaluated first. -/
theorem enters_argument {limit : Nat} {pos : Option Pos} {callee : Expr} {args : List Expr}
    {b : Builtin} {m m' : Machine} {n : Node} (h : directBuiltin? callee = some b)
    (hb : Begins limit (args.map .expr) m n m') :
  Enters limit 0 (.expr (.call pos callee args)) m n m'
  := by
  apply Enters.opening
  rw [Node.opening, h]
  apply hb

end Eval

end ExprScript
