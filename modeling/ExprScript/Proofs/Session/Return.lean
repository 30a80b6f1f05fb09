import ExprScript.Proofs.Eval.Fails
import ExprScript.Proofs.Session.Depth

/-!
# A `return` outside of every function

Whatever is evaluated in a session stands somewhere in one of the programs that the session runs:
as one of its statements, as a part of a node that is evaluated, or in the body of a function whose
expression was evaluated there.  Closures travel, and their bodies are run from anywhere, but they
stand where they were written.  The depth of calls is zero exactly for what stands outside of every
function.  So a `return` is refused for its place in the program, whoever calls what.
-/

namespace ExprScript

/-! ### Places in a program -/

/-- Whether a node is a function. -/
def Node.isFn : Node → Bool
  | .expr (.fn _ _ _) => true
  | _ => false

/-- A node occurs in the program inside of the nodes `around`, the innermost one first. -/
inductive Program.Encloses (p : Program) : List Node → Node → Prop
  | statement {s} : s ∈ p.statements → Encloses p [] (.stmt s)
  | part {around n c} : Encloses p around n → c ∈ n.parts → Encloses p (n :: around) c

/-- None of the nodes around a place is a function. -/
def Outside (around : List Node) : Prop := ∀ x ∈ around, x.isFn = false

/-- Every `return` of the program lies inside of a function. -/
def Program.Sheltered (p : Program) : Prop :=
  ∀ around pos e, p.Encloses around (.stmt (.ret pos e)) → ¬ Outside around

/-- What lies between a body and the statements to run for it: the block that it is, if it is
one. -/
def Stmt.enclosing : Stmt → List Node
  | .block pos body => [.stmt (.block pos body)]
  | _ => []

theorem Program.Encloses.body {p : Program} {around : List Node} {pos : Option Pos}
    {parameters : List String} {body s : Stmt}
    (h : p.Encloses around (.expr (.fn pos parameters body))) (hs : s ∈ body.statements) :
  p.Encloses (body.enclosing ++ .expr (.fn pos parameters body) :: around) (.stmt s)
  := by
  have hbody : p.Encloses (.expr (.fn pos parameters body) :: around) (.stmt body) :=
    .part h List.mem_cons_self
  cases body with
  | block pos ss => exact .part hbody (List.mem_map_of_mem hs)
  | _ =>
      cases List.mem_singleton.mp hs
      exact hbody

theorem outside_cons {n : Node} {around : List Node} (h : n.isFn = false) :
  Outside (n :: around) ↔ Outside around
  := by
  rw [Outside, List.forall_mem_cons]
  exact ⟨And.right, fun haround => ⟨h, haround⟩⟩

/-- Every `return` lies inside of a function, if there is none among nodes that hold the statements
and the parts of each other but the bodies of functions. -/
theorem Program.sheltered_of_nodes {p : Program} (ns : List Node)
    (hstatements : ∀ s ∈ p.statements, .stmt s ∈ ns)
    (hparts : ∀ n ∈ ns, n.isFn = false → ∀ c ∈ n.parts, c ∈ ns)
    (hret : ∀ pos e, .stmt (.ret pos e) ∉ ns) :
  p.Sheltered
  := by
  have hmem : ∀ {around n}, p.Encloses around n → Outside around → n ∈ ns := by
    intro around n h
    induction h with
    | statement hs => exact fun _ => hstatements _ hs
    | part _ hc ih =>
        intro houtside
        obtain ⟨hfn, haround⟩ := List.forall_mem_cons.mp houtside
        apply hparts _ (ih haround) hfn _ hc
  intro around pos e h houtside
  apply hret pos e (hmem h houtside)

namespace Session

open Eval Stateful

/-! ### Places in a session -/

section

variable (source : String) (turns : List Turn)

/-- In the course of turns a node is evaluated from a state, within a limit, that stands in a
program inside of the nodes `around`.  A statement of a body stands where the function does whose
expression made the closure, and not where the closure is called. -/
inductive Stands : Program → List Node → Nat → Node → Machine → Prop
  | statement {s t limit p m st m'} : AtTurn (start source) turns s t → t.Runs s limit p m →
      Starts limit p.statements m st m' → Stands p [] limit (.stmt st) m'
  | part {p around limit n m n' m'} : Stands p around (limit + 1) n m →
      Enters limit 0 n m n' m' → Stands p (n :: around) limit n' m'
  | body {p around limit pos parameters body m q around' limit' n m₁ vs m₂ st m'} :
      Stands p around limit (.expr (.fn pos parameters body)) m →
      Stands q around' (limit' + 1) n m₁ →
      Applies limit' n m₁ (.closure ⟨m.made, parameters, body, m.cursor⟩ vs) m₂ →
      Begins limit' (body.statements.map .stmt)
        (m₂.call ⟨m.made, parameters, body, m.cursor⟩ vs) (.stmt st) m' →
      Stands p (body.enclosing ++ .expr (.fn pos parameters body) :: around) limit' (.stmt st) m'

/-- A closure was made where its function stands. -/
def Made : Value → Prop
  | .fn c => ∃ p around limit pos parameters body m,
      Stands source turns p around limit (.expr (.fn pos parameters body)) m
        ∧ c = ⟨m.made, parameters, body, m.cursor⟩
  | _ => True

/-- A `return` that is refused stands somewhere, and was evaluated at depth zero. -/
def Refuses (f : Fault) : Prop :=
  ∀ pos, f = .error ⟨.strayReturn, pos⟩ → ∃ p around limit e m,
    Stands source turns p around limit (.stmt (.ret pos e)) m ∧ m.depth = 0

end

variable {source : String} {turns : List Turn}

theorem closed_made :
  Value.Closed (Made source turns)
  where
  unit := trivial
  bool _ := trivial
  str _ := trivial
  builtin _ := trivial
  wrap _ := trivial
  complement _ := trivial
  rem _ _ _ := trivial

/-- The regime of places. -/
theorem stands_regime :
  Regime (Refuses source turns) (fun _ => Made source turns) (fun _ => True) Stays Stays
    (fun limit n m => ∃ p around, Stands source turns p around limit n m)
  where
  closed _ := closed_made
  inner := steady_stays _ fun _ _ _ hv => hv
  outer := steady_stays _ fun _ _ _ hv => hv
  widen h := h
  stays h := h
  entered h he _ := by
    obtain ⟨p, around, h⟩ := h
    exact ⟨p, _, .part h he⟩
  body h hc happlies hb _ := by
    obtain ⟨_, _, h⟩ := h
    obtain ⟨p, around, limit, pos, parameters, body, m, hfn, rfl⟩ := hc
    exact ⟨p, _, .body hfn h happlies hb⟩
  length _ _ h := Builtin.every_length (fun _ => trivial) h
  literal _ := trivial
  close _ h := by
    obtain ⟨p, around, h⟩ := h
    exact ⟨p, around, _, _, _, _, _, h, rfl⟩
  branch _ _ := .inr fun h => h
  quiet _ _ := ⟨trivial, rfl, rfl⟩
  define _ _ := ⟨trivial, rfl, rfl⟩
  enter _ _ := ⟨trivial, fun _ hv => hv⟩
  leave _ _ _ := ⟨trivial, rfl, rfl⟩
  error h := by
    rintro pos ⟨⟩
    cases h
  exhausted := nofun
  bareExpr _ := nofun
  bareStmt _ := nofun
  stray h hdepth := by
    rintro pos ⟨⟩
    obtain ⟨p, around, h⟩ := h
    exact ⟨p, around, _, _, _, h, hdepth⟩
  unknown _ _ := nofun
  rendered {_ _ _ _ _ _ e} _ _ := by cases e <;> exact nofun
  printed {_ _ _ e} _ _ := by cases e <;> exact nofun

/-! ### Turns -/

theorem plain_rests {s : Session} {t : Turn} (hat : AtTurn (start source) turns s t) :
  Rests (fun _ _ => True) (fun _ => True) s
  := by
  apply plain_law.regime.rests_at (rests_start trivial source) _ hat
  exact fun _ _ _ _ _ _ _ _ _ _ => trivial

/-- A program is run outside of all calls. -/
theorem plain_runs {s : Session} {t : Turn} (hat : AtTurn (start source) turns s t) {limit : Nat}
    {p : Program} {m : Machine} (hruns : t.Runs s limit p m) :
  m.Plain ∧ m.depth = 0
  := by
  obtain ⟨hm, -, hdepth⟩ := plain_law.rests_runs (plain_rests hat) hruns.runs
  exact ⟨hm.bound, hdepth⟩

/-- Between the turns all closures were made where their functions stand. -/
theorem made_rests {s : Session} {t : Turn} (hat : AtTurn (start source) turns s t) :
  Rests (fun _ => Made source turns) (fun _ => True) s
  := by
  apply stands_regime.rests_at (rests_start trivial source) _ hat
  intro s t hat _ limit p m hruns st m' hstarts _
  exact ⟨p, [], .statement hat hruns hstarts⟩

/-- Whatever is evaluated in a session stands somewhere. -/
theorem exists_stands {s : Session} {t : Turn} (hat : AtTurn (start source) turns s t)
    {limit : Nat} {p : Program} {m : Machine} (hruns : t.Runs s limit p m) {calls limit' : Nat}
    {n : Node} {m' : Machine} (hvisits : Visits limit p.statements m calls limit' n m') :
  ∃ q around, Stands source turns q around limit' n m'
  := by
  obtain ⟨hm, -⟩ := stands_regime.rests_runs (made_rests hat) hruns.runs
  apply (stands_regime.visits hm _ hvisits).2
  intro st m₁ hstarts _
  exact ⟨p, [], .statement hat hruns hstarts⟩

namespace Stands

variable {p : Program} {around : List Node} {limit : Nat} {n : Node} {m : Machine}

/-- What stands in a program is run by one of the turns. -/
theorem exists_runs (h : Stands source turns p around limit n m) :
  ∃ s t limit m₁, AtTurn (start source) turns s t ∧ t.Runs s limit p m₁
  := by
  induction h with
  | statement hat hruns _ => exact ⟨_, _, _, _, hat, hruns⟩
  | part _ _ ih => exact ih
  | body _ _ _ _ ih _ => exact ih

/-- What stands in a program occurs there. -/
theorem encloses (h : Stands source turns p around limit n m) :
  p.Encloses around n
  := by
  induction h with
  | statement _ _ hstarts =>
      obtain ⟨hss, -⟩ := hstarts
      apply Program.Encloses.statement
      rw [hss]
      apply List.mem_append_right _ List.mem_cons_self
  | part _ he ih => exact .part ih (Node.mem_parts_of_children he.mem_children)
  | body _ _ _ hb ih _ => exact ih.body hb.mem_stmt

/-- The depth is zero exactly for what stands outside of every function. -/
theorem depth_eq_zero_iff (h : Stands source turns p around limit n m) :
  m.Plain ∧ (m.depth = 0 ↔ Outside around)
  := by
  induction h with
  | @statement s t limit p m st m' hat hruns hstarts =>
      obtain ⟨hm, hdepth⟩ := plain_runs hat hruns
      obtain @⟨before, after, vs, -, hbefore⟩ := hstarts
      have hmeets : Meets _ _ Stays _ (statements limit before) m :=
        plain_law.meets_statements (sound_of_plain hm) fun _ _ => trivial
      obtain ⟨hm', hstays, -⟩ := hmeets.of_ok hbefore
      refine ⟨hm'.bound, ?_⟩
      rw [hstays.2, hdepth]
      exact ⟨fun _ => nofun, fun _ => rfl⟩
  | @part p around limit n m n' m' _ he ih =>
      obtain ⟨hm, hdepth⟩ := ih
      have hfn : n.isFn = false := by
        -- A function has no parts that are evaluated with it.
        unfold Node.isFn
        split
        · cases he.mem_children
        · rfl
      refine ⟨(plain_law.enters (sound_of_plain hm) trivial he).1.bound, ?_⟩
      rw [depth_enters hm he, outside_cons hfn]
      exact hdepth
  | body _ _ happlies hb _ ih =>
      have he := happlies.enters_body hb
      refine ⟨(plain_law.enters (sound_of_plain ih.1) trivial he).1.bound, ?_⟩
      rw [depth_enters ih.1 he]
      constructor
      · intro h
        cases h
      · intro h
        cases h _ (List.mem_append_right _ List.mem_cons_self)

end Stands

/-! ### Refused returns -/

/-- A turn that refuses a `return` has evaluated it at depth zero. -/
theorem refuses_turn {s : Session} {t : Turn} (hat : AtTurn (start source) turns s t) {f : Fault}
    (h : (s.turn t).1 = .error f) :
  Refuses source turns f
  := by
  rcases fault_of_turn h with ⟨e, rfl⟩ | ⟨limit, p, m, m', hruns, hrun⟩
  · intro pos
    cases e <;> exact nofun
  · obtain ⟨hm, -⟩ := stands_regime.rests_runs (made_rests hat) hruns.runs
    apply (stands_regime.meets_statements hm _).fault hrun
    intro st m₁ hstarts _
    exact ⟨p, [], .statement hat hruns hstarts⟩

theorem run_stray {limit : Nat} {pos : Option Pos} {e : Expr} {m : Machine} (h : m.depth = 0) :
  (node (limit + 1) (.stmt (.ret pos e))).run m = .error (.error ⟨.strayReturn, pos⟩) m
  := by
  rw [node, statement, run_bind_of_ok (EStateM.run_get m), if_pos h]
  rfl

/-- A turn that comes to a `return` at depth zero refuses it, and leaves what is around it. -/
theorem turn_stray {s : Session} {t : Turn} (hat : AtTurn (start source) turns s t)
    {limit : Nat} {p : Program} {m : Machine} (hruns : t.Runs s limit p m) {calls limit' : Nat}
    {pos : Option Pos} {e : Expr} {m' : Machine}
    (hvisits : Visits limit p.statements m calls (limit' + 1) (.stmt (.ret pos e)) m')
    (hdepth : m'.depth = 0) :
  (s.turn t).1 = .error (.error ⟨.strayReturn, pos⟩)
    ∧ (s.turn t).2.machine = { m' with cursor := Machine.root, depth := 0 }
  := by
  obtain ⟨cursor, depth, hrun⟩ := hvisits.fails (fails_of_error (run_stray hdepth))
  obtain ⟨hresult, hmachine⟩ := turn_of_fault hruns hrun
  have hrests : Rests (fun _ _ => True) (fun _ => True) (s.turn t).2 :=
    (plain_law.regime.settles_turn (plain_rests hat) fun _ _ _ _ _ => trivial).rests
  refine ⟨hresult, ?_⟩
  have hcursor := hrests.cursor
  have hdepth := hrests.depth
  rw [hmachine] at hcursor hdepth ⊢
  cases hcursor
  cases hdepth
  rfl

/-- A `return` is refused for its place.  Whenever one is evaluated in a session, it stands
somewhere in a program of the session, and the depth of calls is zero exactly if it stands there
outside of every function; then it is refused, as long as the limit lasts, with its own position,
and nothing is done after it but to leave what it is part of.  So none is refused in a session
whose programs have them inside of functions only. -/
theorem stray_return_is_lexical (source : String) (turns : List Turn) :
  (∀ s t limit p m calls limit' pos e m', AtTurn (start source) turns s t →
      t.Runs s limit p m → Visits limit p.statements m calls limit' (.stmt (.ret pos e)) m' →
      (∃ q around, Stands source turns q around limit' (.stmt (.ret pos e)) m')
        ∧ ∀ q around, Stands source turns q around limit' (.stmt (.ret pos e)) m' →
          q.Encloses around (.stmt (.ret pos e))
            ∧ (m'.depth = 0 ↔ Outside around)
            ∧ (Outside around → limit' ≠ 0 →
                (s.turn t).1 = .error (.error ⟨.strayReturn, pos⟩)
                  ∧ (s.turn t).2.machine = { m' with cursor := Machine.root, depth := 0 }))
    ∧ ((∀ s t limit p m, AtTurn (start source) turns s t → t.Runs s limit p m → p.Sheltered) →
        ∀ s t pos, AtTurn (start source) turns s t →
          (s.turn t).1 ≠ .error (.error ⟨.strayReturn, pos⟩))
  := by
  constructor
  · intro s t limit p m calls limit' pos e m' hat hruns hvisits
    refine ⟨exists_stands hat hruns hvisits, ?_⟩
    intro q around hstands
    obtain ⟨-, hdepth⟩ := hstands.depth_eq_zero_iff
    refine ⟨hstands.encloses, hdepth, ?_⟩
    intro houtside hlimit
    obtain ⟨limit', rfl⟩ := Nat.exists_eq_succ_of_ne_zero hlimit
    apply turn_stray hat hruns hvisits (hdepth.mpr houtside)
  · intro hsheltered s t pos hat h
    obtain ⟨p, around, limit, e, m, hstands, hdepth⟩ := refuses_turn hat h pos rfl
    obtain ⟨s', t', limit', m', hat', hruns⟩ := hstands.exists_runs
    apply hsheltered _ _ _ _ _ hat' hruns _ _ _ hstands.encloses
    apply hstands.depth_eq_zero_iff.2.mp hdepth

/-- One turn binds a function that returns.  To call it in the next turn is fine.  A `return` in a
branch there is refused, and the function is not called for its value. -/
theorem stray_return_is_lexical_branch :
  let returns : Expr := .fn none [] (.ret none (.int none 1))
  let binds : Program := ⟨[.bind none "f" returns]⟩
  let call : Expr := .call none (.ident none "f") []
  let calls : Program := ⟨[.expr none call]⟩
  let stray : Stmt := .ret (some ⟨1, 1⟩) call
  let branches : Program := ⟨[.expr none (.cond none (.bool none true) (.block none [stray]) none)]⟩
  let s : Session := ((start "").turn (.run 3 binds)).2
  let m : Machine := s.machine.enter Machine.root [] 0
  (∀ s t pos, AtTurn (start "") [.run 3 binds, .run 5 calls] s t →
      (s.turn t).1 ≠ .error (.error ⟨.strayReturn, pos⟩))
    ∧ (s.turn (.run 5 branches)).1 = .error (.error ⟨.strayReturn, some ⟨1, 1⟩⟩)
    ∧ (s.turn (.run 5 branches)).2.machine = { m with cursor := Machine.root, depth := 0 }
  := by
  intro returns binds call calls stray branches s m
  constructor
  · have hbinds : binds.Sheltered := by
      apply Program.sheltered_of_nodes [.stmt (.bind none "f" returns), .expr returns]
      all_goals simp [binds, returns, Node.isFn, Node.parts, Node.children]
    have hcalls : calls.Sheltered := by
      apply Program.sheltered_of_nodes
        [.stmt (.expr none call), .expr call, .expr (.ident none "f")]
      all_goals simp [calls, call, Node.isFn, Node.parts, Node.children]
    apply (stray_return_is_lexical "" [.run 3 binds, .run 5 calls]).2
    intro s t limit p m hat hruns
    cases hat with
    | here =>
        cases hruns
        apply hbinds
    | later hat =>
        cases hat with
        | here =>
            cases hruns
            apply hcalls
        | later hat => cases hat
  · have hat : AtTurn (start "") [.run 3 binds, .run 5 branches] s (.run 5 branches) :=
      .later .here
    have hvisits : Visits 5 branches.statements s.machine 0 2 (.stmt stray) m := by
      apply @Visits.intro _ _ _ (0 + (0 + (0 + 0))) _ _ _ [] _ [] [] _ rfl rfl
      apply Reaches.step (.opening .head)
      apply Reaches.step (.consequence ⟨rfl, rfl⟩)
      exact .step (.block .head) .refl
    obtain ⟨⟨q, around, hstands⟩, hplace⟩ :=
      (stray_return_is_lexical "" _).1 _ _ _ _ _ _ _ _ _ _ hat .run hvisits
    obtain ⟨-, hdepth, hrefused⟩ := hplace q around hstands
    apply hrefused (hdepth.mp rfl) (by decide)

end Session

end ExprScript
