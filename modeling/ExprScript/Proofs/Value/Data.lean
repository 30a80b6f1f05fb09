import ExprScript.Proofs.Arith
import ExprScript.Proofs.Value.Alike
import ExprScript.Proofs.Value.Equality

/-!
# Data

Data are the values that can be written as literals: integers in the range, booleans and strings,
and the arrays and maps made of data in which no key comes twice.  Data is shown if the limit is
not smaller than the data, and what differs from it in serial numbers only is equal to it.
-/

namespace ExprScript

/-- Serial numbers do not count. -/
def Likeness.unnumbered : Likeness := ⟨fun _ _ => True, (· = ·)⟩

namespace Value

/-- Integers in the range, booleans and strings, and arrays and maps made of them. -/
inductive IsData : Value → Prop
  | int {n : Int} : Arith.Fits n → IsData (.int n)
  | bool {b : Bool} : IsData (.bool b)
  | str {s : String} : IsData (.str s)
  | array {serial : Serial} {vs : List Value} : (∀ v ∈ vs, IsData v) → IsData (.array serial vs)
  | map {serial : Serial} {es : List (String × Value)} : (es.map Prod.fst).Nodup →
      (∀ p ∈ es, IsData p.2) → IsData (.map serial es)

/-- The least integer of the range occurs in a value. -/
inductive HasLeast : Value → Prop
  | int : HasLeast (.int (-2147483648))
  | array {serial : Serial} {vs : List Value} {v : Value} : v ∈ vs → HasLeast v →
      HasLeast (.array serial vs)
  | map {serial : Serial} {es : List (String × Value)} {p : String × Value} : p ∈ es →
      HasLeast p.2 → HasLeast (.map serial es)

@[simp]
theorem hasLeast_int {n : Int} :
  HasLeast (.int n) ↔ n = -2147483648
  := by
  constructor
  · intro h
    cases h
    rfl
  · rintro rfl
    exact .int

@[simp]
theorem not_hasLeast_bool (b : Bool) :
  ¬ HasLeast (.bool b)
  := nofun

@[simp]
theorem not_hasLeast_str (s : String) :
  ¬ HasLeast (.str s)
  := nofun

@[simp]
theorem hasLeast_array {serial : Serial} {vs : List Value} :
  HasLeast (.array serial vs) ↔ ∃ v ∈ vs, v.HasLeast
  := by
  constructor
  · intro h
    cases h with
    | array hv h => exact ⟨_, hv, h⟩
  · rintro ⟨v, hv, h⟩
    exact .array hv h

@[simp]
theorem hasLeast_map {serial : Serial} {es : List (String × Value)} :
  HasLeast (.map serial es) ↔ ∃ p ∈ es, p.2.HasLeast
  := by
  constructor
  · intro h
    cases h with
    | map hp h => exact ⟨_, hp, h⟩
  · rintro ⟨p, hp, h⟩
    exact .map hp h

namespace IsData

variable {v w : Value}

/-! ### Showing data -/

theorem fault?_eq_none (h : v.IsData) {limit : Nat} (hl : sizeOf v ≤ limit) :
  v.fault? limit = none
  := by
  induction limit generalizing v with
  | zero => cases h <;> simp at hl
  | succ limit ih =>
      cases h with
      | int | bool | str => rfl
      | array hvs =>
          rw [fault?, List.findSome?_eq_none_iff]
          intro v hv
          have hlt := List.sizeOf_lt_of_mem hv
          apply ih (hvs v hv)
          simp only [array.sizeOf_spec] at hl
          omega
      | map _ hes =>
          rw [fault?, List.findSome?_eq_none_iff]
          intro p hp
          have hlt := List.sizeOf_lt_of_mem hp
          have hentry : sizeOf p.2 < sizeOf p := by
            cases p
            simp only [Prod.mk.sizeOf_spec]
            omega
          apply ih (hes p hp)
          simp only [map.sizeOf_spec] at hl
          omega

/-- Data is shown if the limit is not smaller than the data. -/
theorem render_eq (h : v.IsData) {limit : Nat} (hl : sizeOf v ≤ limit) :
  v.render limit = .ok v.text
  := by
  rw [render, h.fault?_eq_none hl]
  rfl

end IsData

/-! ### Equality of data -/

/-- What differs from data in serial numbers only is equal to it. -/
theorem IsData.same {v w : Value} (h : v.IsData) (hw : v.Alike .unnumbered w) :
  w.same v = true
  := by
  induction h generalizing w with
  | int | bool | str =>
      cases hw
      simp [Value.same]
  | @array _ vs _ ih =>
      cases hw with
      | @array _ _ _ ws _ hlength hall =>
          have hsame : List.Forall₂ (fun v w => v.same w = true) ws vs := by
            apply List.Forall₂.flip
            rw [List.forall₂_iff_zip]
            refine ⟨hlength, ?_⟩
            intro v w hvw
            apply ih v (List.of_mem_zip hvw).1 (hall hvw)
          rw [Value.same, sameAll_iff]
          exact hsame
  | @map _ es hkeys _ ih =>
      cases hw with
      | @map _ _ _ fs _ hlength hnames hall =>
          have hsame : sameEntries fs es = true := by
            rw [sameEntries_iff]
            intro q hq
            -- An entry stands in the same place in the map that is equal.
            obtain ⟨i, hi, rfl⟩ := List.mem_iff_getElem.mp hq
            have hi' : i < es.length := by omega
            have hpq : (es[i], fs[i]) ∈ es.zip fs := by
              rw [← List.getElem_zip (h := by simp; omega)]
              apply List.getElem_mem
            have hp : es[i] ∈ es := List.getElem_mem hi'
            refine ⟨es[i].2, ?_, ih _ hp (hall hpq)⟩
            rw [← hnames hpq]
            apply Dict.get?_of_mem hkeys hp
          rw [Value.same, hsame, hlength]
          simp

end Value

end ExprScript
