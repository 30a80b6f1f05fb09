import ExprScript.Proofs.Eval.Range
import ExprScript.Proofs.Session.Step

/-!
# The integers of a session

In a session of programs whose numbers lie in the range of signed 32-bit integers, all integers
lie in it: those in the results, those in the bindings of all scopes, and those inside of arrays
and maps, in every state that the session comes to.  What is measured by `len` has to lie in the
range too, and a string can be longer.
-/

namespace ExprScript

/-- All numbers in the program lie in the range of integers. -/
def Program.InRange (p : Program) : Prop := ∀ st ∈ p.statements, (Node.stmt st).InRange

/-- All integers in the bindings of all scopes lie in the range of integers. -/
def Machine.InRange (m : Machine) : Prop := m.heap.Every (Value.Every Value.InRange)

namespace Session

open Eval Stateful

/-- In the course of turns a session measures a length. -/
inductive Measured (s : Session) (turns : List Turn) (k : Int) : Prop
  | intro {s' t limit p m st m'} : AtTurn s turns s' t → t.Runs s' limit p m →
      Starts limit p.statements m st m' → Measures limit (.stmt st) m' k → Measured s turns k

section

variable {source : String} {turns : List Turn}
  (hnumbers : ∀ limit p, Turn.run limit p ∈ turns → p.InRange)
  (hlengths : ∀ k, Measured (start source) turns k → Arith.Fits k)

theorem mem_of_atTurn {s s' : Session} {t : Turn} (h : AtTurn s turns s' t) :
  t ∈ turns
  := by
  induction h with
  | here => apply List.mem_cons_self
  | later _ ih => apply List.mem_cons_of_mem _ ih

include hnumbers hlengths

/-- The numbers of what is run and the lengths that are measured lie in the range of integers. -/
theorem suits_ranged {s : Session} {t : Turn} (hat : AtTurn (start source) turns s t)
    (hs : Rests (fun _ => Value.InRange) (fun _ => True) s) {limit : Nat} {p : Program}
    {m : Machine} (hruns : t.Runs s limit p m) :
  Suits Ranged limit p m
  := by
  have hp : p.InRange := by
    cases hruns with
    | run => apply hnumbers limit p (mem_of_atTurn hat)
    | evaluate hrun =>
        have hparsed : p.Parsed := ⟨limit, s.pending, _, hs.pending, hrun⟩
        intro st hst
        apply (hparsed.statements st hst).inRange
  intro st m' hstarts _
  constructor
  · obtain ⟨hss, -⟩ := hstarts
    apply hp st
    rw [hss]
    apply List.mem_append_right _ List.mem_cons_self
  · intro k hk
    apply hlengths k ⟨hat, hruns, hstarts, hk⟩

end

/-- All integers of a session lie in the range of integers, if the numbers of the programs that it
runs and the lengths that it measures do: those in the states that it comes to and those in the
results of its turns. -/
theorem integers_in_range {source : String} {turns : List Turn}
    (hnumbers : ∀ limit p, Turn.run limit p ∈ turns → p.InRange)
    (hlengths : ∀ k, Measured (start source) turns k → Arith.Fits k) :
  (∀ m, Comes (start source) turns m → m.InRange)
    ∧ ∀ s t vs, AtTurn (start source) turns s t → (s.turn t).1 = .ok vs →
      ∀ v ∈ vs, v.Every Value.InRange
  := by
  have hstart : Rests (fun _ => Value.InRange) (fun _ => True) (start source) :=
    rests_start trivial source
  have hrests : ∀ {s t}, AtTurn (start source) turns s t →
      Rests (fun _ => Value.InRange) (fun _ => True) s :=
    fun h => range_regime.rests_at hstart (suits_ranged hnumbers hlengths) h
  have hsettles : ∀ {s t}, AtTurn (start source) turns s t →
      Settles (fun _ => Value.InRange) (fun _ => True) (s.turn t) :=
    fun h => range_regime.settles_turn (hrests h) (suits_ranged hnumbers hlengths h (hrests h))
  constructor
  · intro m hm
    cases hm with
    | start => apply hstart.sound.bound
    | rest h => apply (hsettles h).rests.sound.bound
    | @run s t limit p m _ _ _ _ h hruns hvisits =>
        have hsound : Sound (fun _ => Value.InRange) (fun _ => True) m := by
          cases hruns with
          | run => apply (hrests h).sound
          | evaluate _ => apply range_regime.sound_quiet (hrests h).sound (Nat.le_refl _)
        apply (range_regime.visits hsound (suits_ranged hnumbers hlengths h (hrests h) hruns)
          hvisits).1.bound
  · intro s t vs h hvs
    apply (hsettles h).results vs hvs

/-! ### Lengths in range and out of range -/

/-- Measures a length. -/
def measure (e : Expr) : Stmt := .expr none (.call none (.ident none "len") [e])

theorem inRange_measure {e : Expr} (h : (Node.expr e).InRange) :
  (Node.stmt (measure e)).InRange
  := by
  have hname : (Node.expr (.ident none "len")).InRange := .of_parts nofun nofun
  have hcall : (Node.expr (.call none (.ident none "len") [e])).InRange :=
    .of_parts nofun (List.forall_mem_cons.mpr ⟨hname, List.forall_mem_singleton.mpr h⟩)
  exact .of_parts nofun (List.forall_mem_singleton.mpr hcall)

/-- When a string of the program is measured, no other length is. -/
theorem eq_of_measures {t : String} {m : Machine} {k : Int}
    (h : Measures 3 (.stmt (measure (.str none t))) m k) :
  k = t.length
  := by
  have hstring : ¬ Measures 1 (.expr (.str none t)) m k := by
    intro h
    rcases h.cases with ⟨_, _, happlies, _⟩ | ⟨_, _, _, he, _⟩
    · cases happlies
    · cases he with
      | opening hb => cases hb
  rcases h.cases with ⟨_, _, happlies, _⟩ | ⟨_, _, _, he, h⟩
  · cases happlies
  · obtain ⟨hb⟩ := he
    cases hb with
    | tail _ hb => cases hb
    | head =>
        rcases h.cases with ⟨_, _, happlies, hlength⟩ | ⟨_, _, _, he, h⟩
        · cases happlies with
          | direct _ hvs =>
              cases hvs
              cases hlength
              rfl
          | builtin hb => cases hb
        · cases he with
          | opening hb =>
              cases hb with
              | head => cases hstring h
              | tail _ hb => cases hb
          | argument hb => cases hb
          | body hb => cases hb

/-- A session that measures a string of two characters. -/
theorem integers_in_range_two :
  (∀ k, Measured (start "") [.run 3 ⟨[measure (.str none "ab")]⟩] k → Arith.Fits k)
    ∧ (∀ m, Comes (start "") [.run 3 ⟨[measure (.str none "ab")]⟩] m → m.InRange)
    ∧ ∀ s t vs, AtTurn (start "") [.run 3 ⟨[measure (.str none "ab")]⟩] s t →
      (s.turn t).1 = .ok vs → ∀ v ∈ vs, v.Every Value.InRange
  := by
  have hlengths : ∀ k, Measured (start "") [.run 3 ⟨[measure (.str none "ab")]⟩] k →
      Arith.Fits k := by
    rintro k ⟨hat, hruns, ⟨hss, -⟩, h⟩
    cases hat with
    | later hat => cases hat
    | here =>
        cases hruns
        have hst := hss ▸ List.mem_append_right _ List.mem_cons_self
        rw [List.mem_singleton.mp hst] at h
        rw [eq_of_measures h]
        decide
  refine ⟨hlengths, integers_in_range ?_ hlengths⟩
  intro limit p hp
  cases List.mem_singleton.mp hp
  intro st hst
  rw [List.mem_singleton.mp hst]
  apply inRange_measure
  exact .of_parts nofun nofun

/-- Doubles a string. -/
def double : Stmt := .bind none "s" (.binary none (.ident none "s") .add (.ident none "s"))

/-- Doubles a string of one character some times and then measures it. -/
def doubling (times : Nat) : Program :=
  ⟨.bind none "s" (.str none "a")
    :: (List.replicate times double ++ [measure (.ident none "s")])⟩

/-- The name stands for a string of a length. -/
structure Spells (m : Machine) (length : Nat) : Prop where
  scope : m.cursor < m.heap.size
  bound : ∃ t : String, m.heap.get? m.cursor "s" = some (.str t) ∧ t.length = length

theorem spells_define {m : Machine} (hm : m.cursor < m.heap.size) (t : String) :
  Spells (m.define "s" (.str t)) t.length
  := by
  refine ⟨?_, t, ?_, rfl⟩
  · rw [Machine.define, Heap.size_set]
    apply hm
  · apply m.heap.get?_set_self _ _ _ hm

theorem run_name {m : Machine} {t : String} (h : m.heap.get? m.cursor "s" = some (.str t)) :
  (name none "s").run m = .ok (.str t) m
  := by
  simp [name, lookup?, h]

theorem run_double {m : Machine} {length : Nat} (h : Spells m length) :
  ∃ m', (statement 3 double).run m = .ok .unit m' ∧ Spells m' (2 * length)
  := by
  obtain ⟨t, ht, rfl⟩ := h.bound
  have hsum : (expression 2 (.binary none (.ident none "s") .add (.ident none "s"))).run m
      = .ok (.str (t ++ t)) m := by
    simp only [expression]
    rw [run_bind_of_ok (run_name ht)]
    simp only [proceed, Value.isReturned, Bool.false_eq_true, if_false]
    rw [run_bind_of_ok (run_name ht)]
    rfl
  refine ⟨m.define "s" (.str (t ++ t)), ?_, ?_⟩
  · rw [double, statement, run_bind_of_ok hsum]
    rfl
  · have hspells := spells_define h.scope (t ++ t)
    rw [String.length_append, ← Nat.two_mul] at hspells
    apply hspells

theorem run_measure {m : Machine} {length : Nat} (h : Spells m length) :
  (statement 3 (measure (.ident none "s"))).run m = .ok (.int length) m
  := by
  obtain ⟨t, ht, rfl⟩ := h.bound
  have hargs : (gather (expression 1) [.ident none "s"]).run m = .ok (.values [.str t]) m := by
    simp only [gather, expression]
    rw [run_bind_of_ok (run_name ht)]
    rfl
  have hcall : directBuiltin? (.ident none "len") = some .len := rfl
  rw [measure, statement, expression, hcall]
  dsimp only [withAll]
  rw [run_bind_of_ok hargs]
  rfl

theorem run_doublings {m : Machine} {length : Nat} (h : Spells m length) (times : Nat) :
  ∃ m', (statements 3 (List.replicate times double ++ [measure (.ident none "s")])).run m
    = .ok (List.replicate times .unit ++ [.int (Nat.pow 2 times * length : Nat)]) m'
  := by
  induction times generalizing m length with
  | zero =>
      refine ⟨m, ?_⟩
      rw [List.replicate_zero, List.nil_append, statements,
        run_bind_of_ok (run_measure h)]
      simp [statements]
  | succ times ih =>
      obtain ⟨m₁, hrun, h₁⟩ := run_double h
      obtain ⟨m', hrest⟩ := ih h₁
      refine ⟨m', ?_⟩
      rw [List.replicate_succ, List.cons_append, statements, run_bind_of_ok hrun,
        run_bind_of_ok hrest]
      have hpow : Nat.pow 2 (times + 1) * length = Nat.pow 2 times * (2 * length) :=
        Nat.mul_assoc (Nat.pow 2 times) 2 length
      rw [hpow]
      rfl

theorem inRange_doubling (times : Nat) :
  (doubling times).InRange
  := by
  have hname : (Node.expr (.ident none "s")).InRange := .of_parts nofun nofun
  have hsum : (Node.expr (.binary none (.ident none "s") .add (.ident none "s"))).InRange :=
    .of_parts nofun (List.forall_mem_cons.mpr ⟨hname, List.forall_mem_singleton.mpr hname⟩)
  intro st hst
  rcases List.mem_cons.mp hst with rfl | hst
  · exact .of_parts nofun (List.forall_mem_singleton.mpr (.of_parts nofun nofun))
  · rcases List.mem_append.mp hst with hst | hst
    · rw [List.eq_of_mem_replicate hst, double]
      exact .of_parts nofun (List.forall_mem_singleton.mpr hsum)
    · rw [List.mem_singleton.mp hst]
      apply inRange_measure hname

/-- A string of 2^31 characters has a length out of range. -/
theorem integers_in_range_doubling :
  (doubling 31).InRange
    ∧ ∃ vs, ((start "").turn (.run 3 (doubling 31))).1 = .ok vs ∧ .int 2147483648 ∈ vs
      ∧ ¬ (Value.int 2147483648).Every Value.InRange
  := by
  have hstart : Spells (Machine.start.define "s" (.str "a")) 1 := spells_define Nat.one_pos "a"
  obtain ⟨m', hrun⟩ := run_doublings hstart 31
  have hfirst : (statement 3 (.bind none "s" (.str none "a"))).run Machine.start
      = .ok .unit (Machine.start.define "s" (.str "a")) := rfl
  have hall : (statements 3 (doubling 31).statements).run (start "").machine
      = .ok (.unit :: (List.replicate 31 .unit ++ [.int (2 ^ 31 * 1 : Nat)])) m' := by
    rw [doubling, statements]
    exact (run_bind_of_ok hfirst).trans (run_bind_of_ok hrun)
  have hturn : ((start "").turn (.run 3 (doubling 31))).1
      = .ok (.unit :: (List.replicate 31 .unit ++ [.int (2 ^ 31 * 1 : Nat)])) := by
    rw [turn, Session.run, hall]
  refine ⟨inRange_doubling 31, _, hturn, ?_, ?_⟩
  · apply List.mem_cons_of_mem
    apply List.mem_append_right
    exact List.mem_singleton.mpr rfl
  · intro h
    cases h with
    | int hfits =>
        have hnot : ¬ Arith.Fits 2147483648 := by decide
        apply hnot hfits

end Session

end ExprScript
