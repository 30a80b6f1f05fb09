import ExprScript.Proofs.Scope
import ExprScript.Proofs.Value.Related

/-!
# Values with other numbers and function bodies

Two values are alike if they differ in serial numbers and in the bodies of functions at most, and
those in the same places are related.  Operators, built-in functions and scopes look at neither:
from values that are alike they come to values that are alike, or they fail for the same cause.
-/

namespace ExprScript

/-! ### Dictionaries -/

namespace Dict

variable {α β : Type} {R : α → β → Prop} {d : Dict α} {d' : Dict β}

/-- The same names in the same order, with related values. -/
def Alike (R : α → β → Prop) (d : Dict α) (d' : Dict β) : Prop :=
  List.Forall₂ (fun p q => p.1 = q.1 ∧ R p.2 q.2) d d'

theorem Alike.get? (h : Alike R d d') (name : String) :
  Option.Rel R (Dict.get? d name) (Dict.get? d' name)
  := by
  induction h with
  | nil => exact .none
  | @cons p q d d' hpq _ ih =>
      obtain ⟨k, a⟩ := p
      obtain ⟨k', b⟩ := q
      obtain ⟨rfl, hab⟩ := hpq
      rw [Dict.get?, Dict.get?]
      split
      · exact .some hab
      · apply ih

theorem Alike.set (h : Alike R d d') (name : String) {a : α} {b : β} (hab : R a b) :
  Alike R (Dict.set d name a) (Dict.set d' name b)
  := by
  induction h with
  | nil => exact .cons ⟨rfl, hab⟩ .nil
  | @cons p q d d' hpq hd ih =>
      obtain ⟨k, v⟩ := p
      obtain ⟨k', w⟩ := q
      obtain ⟨rfl, hvw⟩ := hpq
      rw [Dict.set, Dict.set]
      split
      · exact .cons ⟨rfl, hab⟩ hd
      · exact .cons ⟨rfl, hvw⟩ ih

theorem alike_zip (names : List String) {as : List α} {bs : List β} (h : List.Forall₂ R as bs) :
  Alike R (names.zip as) (names.zip bs)
  := by
  induction names generalizing as bs with
  | nil => exact .nil
  | cons name names ih =>
      cases h with
      | nil => exact .nil
      | cons hab h => exact .cons ⟨rfl, hab⟩ (ih h)

end Dict

/-! ### Values -/

/-- What may stand for what in two values. -/
structure Likeness where
  /-- The relation of serial numbers. -/
  serial : Serial → Serial → Prop
  /-- The relation of the bodies of functions. -/
  body : Stmt → Stmt → Prop

/-- Everything may stand for itself. -/
structure Likeness.Reflexive (B : Likeness) : Prop where
  serial : ∀ i, B.serial i i
  body : ∀ s, B.body s s

/-- Two closures with the same parameters and scope, and with related numbers and bodies. -/
structure Closure.Alike (B : Likeness) (c d : Closure) : Prop where
  serial : B.serial c.serial d.serial
  parameters : c.parameters = d.parameters
  scope : c.scope = d.scope
  body : B.body c.body d.body

/-- Two values differ in serial numbers and in the bodies of functions at most, and these are
related. -/
inductive Value.Alike (B : Likeness) : Value → Value → Prop
  | int (n : Int) : Alike B (.int n) (.int n)
  | bool (b : Bool) : Alike B (.bool b) (.bool b)
  | str (s : String) : Alike B (.str s) (.str s)
  | array {i j : Serial} {vs ws : List Value} : B.serial i j → vs.length = ws.length →
      (∀ {v w}, (v, w) ∈ vs.zip ws → Alike B v w) → Alike B (.array i vs) (.array j ws)
  | map {i j : Serial} {es fs : List (String × Value)} : B.serial i j → es.length = fs.length →
      (∀ {p q}, (p, q) ∈ es.zip fs → p.1 = q.1) →
      (∀ {p q}, (p, q) ∈ es.zip fs → Alike B p.2 q.2) → Alike B (.map i es) (.map j fs)
  | fn {c d : Closure} : c.Alike B d → Alike B (.fn c) (.fn d)
  | builtin (name : String) : Alike B (.builtin name) (.builtin name)
  | unit : Alike B .unit .unit
  | returned {v w : Value} : Alike B v w → Alike B (.returned v) (.returned w)

namespace Value

variable {B : Likeness} {v w v' w' : Value}

theorem alike_array {i j : Serial} (hij : B.serial i j) {vs ws : List Value}
    (h : List.Forall₂ (Alike B) vs ws) :
  Alike B (.array i vs) (.array j ws)
  := by
  obtain ⟨hlength, h⟩ := List.forall₂_iff_zip.mp h
  exact .array hij hlength h

theorem alike_map {i j : Serial} (hij : B.serial i j) {es fs : Dict Value}
    (h : Dict.Alike (Alike B) es fs) :
  Alike B (.map i es) (.map j fs)
  := by
  obtain ⟨hlength, h⟩ := List.forall₂_iff_zip.mp h
  exact .map hij hlength (fun hpq => (h hpq).1) (fun hpq => (h hpq).2)

namespace Alike

theorem kind_eq (h : Alike B v w) :
  v.kind = w.kind
  := by
  induction h with
  | returned _ ih => apply ih
  | _ => rfl

theorem isReturned_eq (h : Alike B v w) :
  v.isReturned = w.isReturned
  := by
  cases h <;> rfl

theorem content (h : Alike B v w) :
  Alike B v.content w.content
  := by
  cases h with
  | returned h => apply h
  | int | bool | str | builtin => constructor
  | unit => exact .unit
  | array hij hlength h => exact .array hij hlength h
  | map hij hlength hnames h => exact .map hij hlength hnames h
  | fn h => exact .fn h

end Alike

mutual

theorem Alike.refl (hB : B.Reflexive) (v : Value) :
  Alike B v v
  := by
  cases v with
  | int n => exact .int n
  | bool b => exact .bool b
  | str s => exact .str s
  | builtin name => exact .builtin name
  | unit => exact .unit
  | fn c => exact .fn ⟨hB.serial c.serial, rfl, rfl, hB.body c.body⟩
  | returned v => exact .returned (Alike.refl hB v)
  | array i vs => exact alike_array (hB.serial i) (Alike.reflAll hB vs)
  | map i es => exact alike_map (hB.serial i) (Alike.reflEntries hB es)

theorem Alike.reflAll (hB : B.Reflexive) (vs : List Value) :
  List.Forall₂ (Alike B) vs vs
  := by
  cases vs with
  | nil => exact .nil
  | cons v vs => exact .cons (Alike.refl hB v) (Alike.reflAll hB vs)

theorem Alike.reflEntries (hB : B.Reflexive) (es : List (String × Value)) :
  Dict.Alike (Alike B) es es
  := by
  cases es with
  | nil => exact .nil
  | cons p es =>
      obtain ⟨k, v⟩ := p
      exact .cons ⟨rfl, Alike.refl hB v⟩ (Alike.reflEntries hB es)

end

theorem texts_eq_map (vs : List Value) :
  texts vs = vs.map text
  := by
  induction vs with
  | nil => rfl
  | cons v vs ih => rw [texts, ih, List.map_cons]

theorem entryTexts_eq_map (es : List (String × Value)) :
  entryTexts es = es.map fun p => Escape.quote p.1 ++ ": " ++ p.2.text
  := by
  induction es with
  | nil => rfl
  | cons p es ih =>
      obtain ⟨k, v⟩ := p
      rw [entryTexts, ih, List.map_cons]

/-- Values have the same text if the bodies of functions have. -/
theorem Alike.text_eq (hB : ∀ {s t}, B.body s t → Stmt.texts s.statements = Stmt.texts t.statements)
    (h : Alike B v w) :
  v.text = w.text
  := by
  induction h with
  | int | bool | str | builtin | unit => rfl
  | returned _ ih => apply ih
  | fn h => rw [text, text, Closure.text, Closure.text, h.parameters, hB h.body]
  | @array _ _ vs ws _ hlength _ ih =>
      have htexts : vs.map text = ws.map text := by
        rw [← List.forall₂_eq_eq_eq, List.forall₂_map_left_iff, List.forall₂_map_right_iff,
          List.forall₂_iff_zip]
        exact ⟨hlength, ih⟩
      rw [text, text, texts_eq_map, texts_eq_map, htexts]
  | @map _ _ es fs _ hlength hnames _ ih =>
      have htexts : es.map (fun p => Escape.quote p.1 ++ ": " ++ p.2.text)
          = fs.map fun p => Escape.quote p.1 ++ ": " ++ p.2.text := by
        rw [← List.forall₂_eq_eq_eq, List.forall₂_map_left_iff, List.forall₂_map_right_iff,
          List.forall₂_iff_zip]
        refine ⟨hlength, ?_⟩
        intro p q hpq
        rw [hnames hpq, ih hpq]
      rw [text, text, entryTexts_eq_map, entryTexts_eq_map, htexts]

/-- Operators and built-in functions look at neither serial numbers nor bodies. -/
theorem respected_alike :
  Respected (Alike B)
  where
  corresponds h := by
    cases h with
    | int n => exact .int n
    | bool b => exact .bool b
    | str s => exact .str s
    | array _ hlength h => exact .array (List.forall₂_iff_zip.mpr ⟨hlength, h⟩)
    | @map _ _ es fs _ hlength hnames h =>
        have hentries : Dict.Alike (Alike B) es fs :=
          List.forall₂_iff_zip.mpr ⟨hlength, fun hpq => ⟨hnames hpq, h hpq⟩⟩
        exact .map hlength hentries.get?
    | fn _ => exact .fn _ _
    | builtin name => exact .builtin name name
    | unit => exact .unit
    | returned h => exact .returned h.kind_eq
  int n := .int n
  bool b := .bool b
  str s := .str s

end Value

/-! ### Scopes -/

namespace Heap

variable {B : Likeness} {h h' : Heap}

/-- The same scopes inside each other, with alike bindings. -/
structure Alike (B : Likeness) (h h' : Heap) : Prop where
  size : h.size = h'.size
  outer : ∀ id, h.outer? id = h'.outer? id
  bindings : ∀ id, Dict.Alike (Value.Alike B) (h.bindings id) (h'.bindings id)

namespace Alike

theorem refl (hB : B.Reflexive) (h : Heap) :
  Alike B h h
  := ⟨rfl, fun _ => rfl, fun id => Value.Alike.reflEntries hB (h.bindings id)⟩

theorem chain_eq (hh : Alike B h h') (id : ScopeId) :
  h.chain id = h'.chain id
  := chain_congr hh.outer id

theorem get? (hh : Alike B h h') (id : ScopeId) (name : String) :
  Option.Rel (Value.Alike B) (h.get? id name) (h'.get? id name)
  := by
  rw [Heap.get?, Heap.get?, ← hh.chain_eq id]
  induction h.chain id with
  | nil => exact .none
  | cons i ids ih =>
      rw [List.findSome?_cons, List.findSome?_cons]
      have hget := (hh.bindings i).get? name
      generalize Dict.get? (h.bindings i) name = v at hget ⊢
      generalize Dict.get? (h'.bindings i) name = w at hget ⊢
      cases hget with
      | some hvw => exact .some hvw
      | none => apply ih

theorem create (hh : Alike B h h') (outer : Option ScopeId) :
  Alike B (h.create outer).2 (h'.create outer).2
  := by
  constructor
  · rw [size_create, size_create, hh.size]
  · intro id
    rw [outer?_create, outer?_create, hh.size, hh.outer]
  · intro id
    rw [bindings_create, bindings_create]
    apply hh.bindings id

theorem set (hh : Alike B h h') (id : ScopeId) (name : String) {v w : Value}
    (hvw : Value.Alike B v w) :
  Alike B (h.set id name v) (h'.set id name w)
  := by
  constructor
  · rw [size_set, size_set, hh.size]
  · intro i
    rw [outer?_set, outer?_set, hh.outer]
  · intro i
    rw [bindings_set, bindings_set, hh.size]
    split
    · apply (hh.bindings id).set name hvw
    · apply hh.bindings i

theorem setAll (hh : Alike B h h') (id : ScopeId) {pairs pairs' : Dict Value}
    (hpairs : Dict.Alike (Value.Alike B) pairs pairs') :
  Alike B (h.setAll id pairs) (h'.setAll id pairs')
  := by
  induction hpairs generalizing h h' with
  | nil => apply hh
  | @cons p q _ _ hpq _ ih =>
      obtain ⟨k, v⟩ := p
      obtain ⟨k', w⟩ := q
      obtain ⟨rfl, hvw⟩ := hpq
      apply ih (hh.set id k hvw)

end Alike

end Heap

end ExprScript
