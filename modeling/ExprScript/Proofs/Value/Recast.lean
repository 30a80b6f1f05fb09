import ExprScript.Eval.Builtin
import ExprScript.Eval.Operator
import ExprScript.Proofs.Reader.Recast
import ExprScript.Proofs.Scope
import ExprScript.Proofs.Tree.Shown

/-!
# Values with other positions

A value holds positions in the bodies of functions only.  Recasting it changes them, and neither
its kind nor its text.  Operators, built-in functions and scopes know nothing of positions: what
they make of recast values is recast from what they make of the values.
-/

namespace ExprScript

section

variable (place : Pos → Pos)

/-- The closure with other positions in its body. -/
@[simp]
def Closure.recast (c : Closure) : Closure :=
  { c with body := c.body.recast (Option.map place) true }

mutual

/-- The value with other positions. -/
@[simp]
def Value.recast : Value → Value
  | .array i vs => .array i (Value.recastAll vs)
  | .map i es => .map i (Value.recastEntries es)
  | .fn c => .fn (c.recast place)
  | .returned v => .returned v.recast
  | .int n => .int n
  | .bool b => .bool b
  | .str s => .str s
  | .builtin n => .builtin n
  | .unit => .unit

/-- A list of values, each with other positions. -/
@[simp]
def Value.recastAll : List Value → List Value
  | [] => []
  | v :: vs => v.recast :: Value.recastAll vs

/-- The entries of a map, each with other positions. -/
@[simp]
def Value.recastEntries : List (String × Value) → List (String × Value)
  | [] => []
  | (k, v) :: es => (k, v.recast) :: Value.recastEntries es

end

/-- An entry with other positions. -/
def Value.recastEntry (p : String × Value) : String × Value := (p.1, p.2.recast place)

theorem Value.recastAll_eq_map (vs : List Value) :
  Value.recastAll place vs = vs.map (Value.recast place)
  := by
  induction vs with
  | nil => rfl
  | cons v vs ih => rw [Value.recastAll, ih, List.map_cons]

theorem Value.recastEntries_eq_map (es : List (String × Value)) :
  Value.recastEntries place es = es.map (Value.recastEntry place)
  := by
  induction es with
  | nil => rfl
  | cons p es ih =>
      rw [Value.recastEntries, ih, List.map_cons]
      rfl

namespace Value

/-! ### What is seen of a value -/

@[simp]
theorem kind_recast (v : Value) :
  (v.recast place).kind = v.kind
  := by
  induction v using Value.kind.induct with
  | case9 v ih => apply ih
  | _ => rfl

@[simp]
theorem isReturned_recast (v : Value) :
  (v.recast place).isReturned = v.isReturned
  := by
  cases v <;> rfl

theorem content_recast (v : Value) :
  (v.recast place).content = v.content.recast place
  := by
  cases v <;> rfl

end Value

@[simp]
theorem Closure.text_recast (c : Closure) :
  (c.recast place).text = c.text
  := by
  rw [Closure.text, Closure.recast, Stmt.statements_recast, ← Stmt.recastAll_eq_map,
    Stmt.texts_recastAll]
  rfl

mutual

/-- A value with other positions has the same text. -/
@[simp]
theorem Value.text_recast (v : Value) :
  (v.recast place).text = v.text
  := by
  cases v with
  | array i vs => simp only [Value.recast, Value.text, Value.texts_recastAll vs]
  | map i es => simp only [Value.recast, Value.text, Value.entryTexts_recastEntries es]
  | fn c => apply Closure.text_recast
  | returned v => apply Value.text_recast v
  | int | bool | str | builtin | unit => rfl

theorem Value.texts_recastAll (vs : List Value) :
  Value.texts (Value.recastAll place vs) = Value.texts vs
  := by
  cases vs with
  | nil => rfl
  | cons v vs =>
      simp only [Value.recastAll, Value.texts, Value.text_recast v, Value.texts_recastAll vs]

theorem Value.entryTexts_recastEntries (es : List (String × Value)) :
  Value.entryTexts (Value.recastEntries place es) = Value.entryTexts es
  := by
  cases es with
  | nil => rfl
  | cons p es =>
      obtain ⟨k, v⟩ := p
      simp only [Value.recastEntries, Value.entryTexts, Value.text_recast v,
        Value.entryTexts_recastEntries es]

end

namespace Value

/-- The same stands in the way of showing a value with other positions. -/
@[simp]
theorem fault?_recast (limit : Nat) (v : Value) :
  (v.recast place).fault? limit = v.fault? limit
  := by
  induction limit generalizing v with
  | zero => rfl
  | succ limit ih =>
      cases v with
      | array i vs =>
          simp only [recast, fault?, recastAll_eq_map, List.findSome?_map, Function.comp_def, ih]
      | map i es =>
          simp only [recast, fault?, recastEntries_eq_map, List.findSome?_map, Function.comp_def,
            recastEntry, ih]
      | fn c =>
          simp only [recast, fault?, Closure.recast, Stmt.statements_recast, List.findSome?_map,
            Function.comp_def, Stmt.fault?_recast]
      | returned v => apply ih
      | int | bool | str | builtin | unit => rfl

theorem render_recast (limit : Nat) (v : Value) :
  (v.recast place).render limit = v.render limit
  := by
  rw [render, fault?_recast, text_recast, render]

theorem printed_recast (limit : Nat) (v : Value) :
  (v.recast place).printed limit = v.printed limit
  := by
  cases v with
  | str s => rfl
  | _ => apply render_recast

end Value

/-! ### Errors -/

/-- The cause with other positions. -/
def EvalCause.recast : EvalCause → EvalCause
  | .source e => .source (e.recast place)
  | cause => cause

/-- The error with other positions. -/
def EvalError.recast (e : EvalError) : EvalError := ⟨e.cause.recast place, e.pos.map place⟩

/-- The fault with other positions. -/
def Fault.recast : Fault → Fault
  | .error e => .error (e.recast place)
  | fault => fault

/-- A result or a cause with other positions. -/
def recastOutcome {α : Type} (view : α → α) : Except EvalCause α → Except EvalCause α
  | .ok a => .ok (view a)
  | .error cause => .error (cause.recast place)

/-! ### Operators -/

namespace Value

theorem unary_recast (op : UnaryOp) (v : Value) :
  unary op (v.recast place) = recastOutcome place (recast place) (unary op v)
  := by
  cases v with
  | returned v =>
      cases op <;> simp [unary, recastOutcome, EvalCause.recast, kind]
  | _ => cases op <;> rfl

theorem binaryInt_recast (op : BinaryOp) (a b : Int) :
  recastOutcome place (recast place) (binaryInt op a b) = binaryInt op a b
  := by
  unfold binaryInt
  repeat' split
  all_goals rfl

theorem binaryBool_recast (op : BinaryOp) (a b : Bool) :
  recastOutcome place (recast place) (binaryBool op a b) = binaryBool op a b
  := by
  unfold binaryBool
  split <;> rfl

theorem binaryStr_recast (op : BinaryOp) (s t : String) :
  recastOutcome place (recast place) (binaryStr op s t) = binaryStr op s t
  := by
  unfold binaryStr
  split <;> rfl

theorem binary_recast (op : BinaryOp) (v w : Value) :
  binary op (v.recast place) (w.recast place) = recastOutcome place (recast place) (binary op v w)
  := by
  have hkinds : ∀ k l : ValueKind,
      (if k = l then .error (.operator op.symbol k) else .error (.operands op k l))
        = recastOutcome place (recast place)
            (if k = l then .error (.operator op.symbol k) else .error (.operands op k l)) := by
    intro k l
    split <;> rfl
  cases v with
  | int a =>
      cases w with
      | int b => exact (binaryInt_recast place op a b).symm
      | _ =>
          simp only [recast, binary, kind, kind_recast]
          apply hkinds
  | bool a =>
      cases w with
      | bool b => exact (binaryBool_recast place op a b).symm
      | _ =>
          simp only [recast, binary, kind, kind_recast]
          apply hkinds
  | str s =>
      cases w with
      | str t => exact (binaryStr_recast place op s t).symm
      | _ =>
          simp only [recast, binary, kind, kind_recast]
          apply hkinds
  | _ =>
      simp only [recast, binary, kind, kind_recast]
      apply hkinds

theorem element_recast (vs : List Value) (i : Int) :
  element (vs.map (recast place)) i = recastOutcome place (recast place) (element vs i)
  := by
  unfold element
  rw [List.length_map, List.getElem?_map]
  split
  · rfl
  · cases vs[i.toNat]? <;> rfl

end Value

/-- Looking up a name in a recast dictionary finds the recast value. -/
theorem Dict.get?_recast (d : Dict Value) (name : String) :
  Dict.get? (d.map (Value.recastEntry place)) name = (Dict.get? d name).map (Value.recast place)
  := by
  induction d with
  | nil => rfl
  | cons p d ih =>
      obtain ⟨k, v⟩ := p
      rw [List.map_cons, Value.recastEntry, Dict.get?, Dict.get?]
      split
      · rfl
      · apply ih

theorem Dict.set_recast (d : Dict Value) (name : String) (v : Value) :
  Dict.set (d.map (Value.recastEntry place)) name (v.recast place)
    = (Dict.set d name v).map (Value.recastEntry place)
  := by
  induction d with
  | nil => rfl
  | cons p d ih =>
      obtain ⟨k, w⟩ := p
      rw [List.map_cons, Value.recastEntry, Dict.set, Dict.set]
      split
      · rfl
      · rw [ih]
        rfl

theorem Value.index_recast (v w : Value) :
  index (v.recast place) (w.recast place) = recastOutcome place (recast place) (index v w)
  := by
  cases v with
  | array i vs =>
      cases w with
      | int i =>
          simp only [recast, index, recastAll_eq_map, element_recast]
      | _ => simp [index, recastOutcome, EvalCause.recast, kind]
  | map i es =>
      cases w with
      | str k =>
          simp only [recast, index, recastEntries_eq_map, Dict.get?_recast]
          cases Dict.get? es k <;> rfl
      | _ => simp [index, recastOutcome, EvalCause.recast, kind]
  | _ => simp [index, recastOutcome, EvalCause.recast, kind]

/-! ### Built-in functions -/

namespace Builtin

theorem length_recast (args : List Value) :
  length (args.map (Value.recast place)) = recastOutcome place (Value.recast place) (length args)
  := by
  cases args with
  | nil => rfl
  | cons v args =>
      cases args with
      | nil =>
          cases v <;> simp [length, recastOutcome, EvalCause.recast, Value.kind,
            Value.recastAll_eq_map, Value.recastEntries_eq_map]
      | cons w args => simp [length, recastOutcome, EvalCause.recast]

theorem extended_recast (args : List Value) :
  extended (args.map (Value.recast place))
    = recastOutcome place (List.map (Value.recast place)) (extended args)
  := by
  cases args with
  | nil => rfl
  | cons v args =>
      cases args with
      | nil => simp [extended, recastOutcome, EvalCause.recast]
      | cons w args =>
          cases v <;> simp [extended, recastOutcome, EvalCause.recast, Value.kind,
            Value.recastAll_eq_map]

theorem shortened_recast (args : List Value) :
  shortened (args.map (Value.recast place))
    = recastOutcome place (List.map (Value.recast place)) (shortened args)
  := by
  cases args with
  | nil => rfl
  | cons v args =>
      cases args with
      | nil =>
          cases v <;> simp [shortened, recastOutcome, EvalCause.recast, Value.kind,
            Value.recastAll_eq_map]
      | cons w args => simp [shortened, recastOutcome, EvalCause.recast]

theorem line_recast (limit : Nat) (args : List Value) :
  line limit (args.map (Value.recast place)) = line limit args
  := by
  rw [line, List.mapM_map]
  simp only [Function.comp_def, Value.printed_recast]
  rfl

end Builtin

/-! ### Scopes -/

/-- The scope with other positions. -/
def Scope.recast (s : Scope) : Scope :=
  { s with bindings := s.bindings.map (Value.recastEntry place) }

namespace Heap

/-- The heap with other positions. -/
def recast (h : Heap) : Heap := ⟨h.scopes.map (Scope.recast place)⟩

variable (h : Heap)

theorem size_recast :
  (h.recast place).size = h.size
  := Array.size_map

theorem bindings_recast (id : ScopeId) :
  (h.recast place).bindings id = (h.bindings id).map (Value.recastEntry place)
  := by
  unfold bindings recast
  rw [Array.getElem?_map]
  cases h.scopes[id]? <;> rfl

theorem outer?_recast (id : ScopeId) :
  (h.recast place).outer? id = h.outer? id
  := by
  unfold outer? recast
  rw [Array.getElem?_map]
  cases h.scopes[id]? <;> rfl

theorem create_recast (outer : Option ScopeId) :
  (h.recast place).create outer = ((h.create outer).1, (h.create outer).2.recast place)
  := by
  rw [create, size_recast, create, recast, recast, Array.map_push]
  rfl

theorem set_recast (id : ScopeId) (name : String) (v : Value) :
  (h.recast place).set id name (v.recast place) = (h.set id name v).recast place
  := by
  unfold set recast
  apply congrArg Heap.mk
  apply Array.ext_getElem?
  intro i
  rw [Array.getElem?_modify, Array.getElem?_map, Array.getElem?_map, Array.getElem?_modify]
  split
  · cases h.scopes[i]? with
    | none => rfl
    | some s => simp only [Option.map_some, Scope.recast, Dict.set_recast]
  · rfl

theorem setAll_recast (id : ScopeId) (pairs : List (String × Value)) :
  (h.recast place).setAll id (pairs.map (Value.recastEntry place))
    = (h.setAll id pairs).recast place
  := by
  induction pairs generalizing h with
  | nil => rfl
  | cons p pairs ih =>
      rw [setAll, List.map_cons, List.foldl_cons, Value.recastEntry, set_recast]
      apply ih

theorem chain_recast (id : ScopeId) :
  (h.recast place).chain id = h.chain id
  := chain_congr (outer?_recast place h) id

theorem get?_recast (id : ScopeId) (name : String) :
  (h.recast place).get? id name = (h.get? id name).map (Value.recast place)
  := by
  rw [get?, chain_recast, get?, List.map_findSome?]
  simp only [Function.comp_def, bindings_recast, Dict.get?_recast]

end Heap

end

end ExprScript
