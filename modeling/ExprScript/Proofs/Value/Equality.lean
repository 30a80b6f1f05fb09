import Mathlib.Data.List.Perm.Subperm
import ExprScript.Proofs.Scope
import ExprScript.Proofs.Value.Related
import ExprScript.Value.Equal

/-!
# Equality of values

Equality is an equivalence of the values there are between calls, in which nothing is on its way out
of a call and no key of a map comes twice.
-/

namespace ExprScript

/-! ### Keys -/

namespace Dict

variable {α β : Type} {d : Dict α} {e : Dict β}

/-- If the names of a dictionary occur in another one of the same size, they are all the names of
the other one. -/
theorem names_subset_of_length (hd : (d.map Prod.fst).Nodup) (hlength : d.length = e.length)
    (h : names d ⊆ names e) :
  names e ⊆ names d
  := by
  have hle : (names e).length ≤ (names d).length := by
    rw [names, names, List.length_map, List.length_map]
    apply Nat.le_of_eq hlength.symm
  apply ((List.subperm_of_subset hd h).perm_of_length_le hle).symm.subset

end Dict

namespace Value

/-- Nothing in the value is on its way out of a call, and no key of a map comes twice. -/
inductive Proper : Value → Prop
  | int (n : Int) : Proper (.int n)
  | bool (b : Bool) : Proper (.bool b)
  | str (s : String) : Proper (.str s)
  | array {serial : Serial} {vs : List Value} : (∀ v ∈ vs, Proper v) → Proper (.array serial vs)
  | map {serial : Serial} {es : Dict Value} : (es.map Prod.fst).Nodup →
      (∀ p ∈ es, Proper p.2) → Proper (.map serial es)
  | fn (c : Closure) : Proper (.fn c)
  | builtin (name : String) : Proper (.builtin name)
  | unit : Proper .unit

theorem sameAll_iff {vs ws : List Value} :
  sameAll vs ws = true ↔ List.Forall₂ (fun v w => v.same w = true) vs ws
  := by
  induction vs generalizing ws with
  | nil => cases ws <;> simp [sameAll]
  | cons v vs ih =>
      cases ws with
      | nil => simp [sameAll]
      | cons w ws => rw [sameAll, Bool.and_eq_true, ih, List.forall₂_cons]

theorem sameEntries_iff {es fs : Dict Value} :
  sameEntries es fs = true
    ↔ ∀ p ∈ es, ∃ w, Dict.get? fs p.1 = some w ∧ p.2.same w = true
  := by
  induction es with
  | nil => simp [sameEntries]
  | cons p es ih =>
      obtain ⟨k, v⟩ := p
      rw [sameEntries, Bool.and_eq_true, ih, List.forall_mem_cons]
      cases Dict.get? fs k <;> simp

/-- Two proper values are equal. -/
structure Equal (v w : Value) : Prop where
  left : v.Proper
  right : w.Proper
  same : v.same w = true

/-- How two values are equal: in all elements, under all keys, or outright. -/
inductive Equates : Value → Value → Prop
  | int (n : Int) : Equates (.int n) (.int n)
  | bool (b : Bool) : Equates (.bool b) (.bool b)
  | str (s : String) : Equates (.str s) (.str s)
  | array {i j : Serial} {vs ws : List Value} : List.Forall₂ Equal vs ws →
      Equates (.array i vs) (.array j ws)
  | map {i j : Serial} {es fs : Dict Value} : es.length = fs.length →
      (∀ name, Option.Rel Equal (Dict.get? es name) (Dict.get? fs name)) →
      Equates (.map i es) (.map j fs)
  | fn {c d : Closure} : c.serial = d.serial → Equates (.fn c) (.fn d)
  | builtin (name : String) : Equates (.builtin name) (.builtin name)
  | unit : Equates .unit .unit

variable {u v w : Value}

theorem forall₂_equal {vs ws : List Value} (hvs : ∀ v ∈ vs, v.Proper) (hws : ∀ w ∈ ws, w.Proper)
    (h : List.Forall₂ (fun v w => v.same w = true) vs ws) :
  List.Forall₂ Equal vs ws
  := by
  induction h with
  | nil => exact .nil
  | cons hvw _ ih =>
      obtain ⟨hv, hvs⟩ := List.forall_mem_cons.mp hvs
      obtain ⟨hw, hws⟩ := List.forall_mem_cons.mp hws
      exact .cons ⟨hv, hw, hvw⟩ (ih hvs hws)

theorem proper_of_forall₂ {vs ws : List Value} (h : List.Forall₂ Equal vs ws) :
  (∀ v ∈ vs, v.Proper) ∧ ∀ w ∈ ws, w.Proper
  := by
  induction h with
  | nil => exact ⟨nofun, nofun⟩
  | cons hvw _ ih =>
      exact ⟨List.forall_mem_cons.mpr ⟨hvw.left, ih.1⟩, List.forall_mem_cons.mpr ⟨hvw.right, ih.2⟩⟩

theorem Proper.get? {es : Dict Value} (h : ∀ p ∈ es, p.2.Proper) {name : String}
    (hv : Dict.get? es name = some v) :
  v.Proper
  := h _ (Dict.mem_of_get? hv)

/-- Maps that are equal have equal values under all keys, and the same keys. -/
theorem rel_get?_of_sameEntries {es fs : Dict Value} (hkeys : (es.map Prod.fst).Nodup)
    (hlength : es.length = fs.length) (hes : ∀ p ∈ es, p.2.Proper) (hfs : ∀ p ∈ fs, p.2.Proper)
    (h : sameEntries es fs = true) (name : String) :
  Option.Rel Equal (Dict.get? es name) (Dict.get? fs name)
  := by
  rw [sameEntries_iff] at h
  cases hv : Dict.get? es name with
  | some v =>
      obtain ⟨w, hw, hsame⟩ := h (name, v) (Dict.mem_of_get? hv)
      rw [hw]
      exact .some ⟨Proper.get? hes hv, Proper.get? hfs hw, hsame⟩
  | none =>
      have hsubset : Dict.names es ⊆ Dict.names fs := by
        intro k hk
        obtain ⟨v, hv⟩ := Option.isSome_iff_exists.mp ((Dict.mem_names_iff es k).mp hk)
        obtain ⟨w, hw, -⟩ := h (k, v) (Dict.mem_of_get? hv)
        rw [Dict.mem_names_iff, hw, Option.isSome_some]
      have hall := Dict.names_subset_of_length hkeys hlength hsubset
      cases hw : Dict.get? fs name with
      | none => exact .none
      | some w =>
          -- The key would occur in the first map as well.
          have hmem : name ∈ Dict.names es := by
            apply hall
            rw [Dict.mem_names_iff, hw, Option.isSome_some]
          rw [Dict.mem_names_iff, hv] at hmem
          cases hmem

theorem sameEntries_of_rel_get? {es fs : Dict Value} (hkeys : (es.map Prod.fst).Nodup)
    (h : ∀ name, Option.Rel Equal (Dict.get? es name) (Dict.get? fs name)) :
  sameEntries es fs = true
  := by
  rw [sameEntries_iff]
  intro p hp
  have hrel := h p.1
  rw [Dict.get?_of_mem hkeys hp] at hrel
  generalize Dict.get? fs p.1 = o at hrel ⊢
  cases hrel with
  | some hvw => exact ⟨_, rfl, hvw.same⟩

theorem Equal.equates (h : Equal v w) :
  Equates v w
  := by
  obtain ⟨hv, hw, hsame⟩ := h
  unfold Value.same at hsame
  split at hsame
  · obtain rfl := of_decide_eq_true hsame
    exact .int _
  · obtain rfl := of_decide_eq_true hsame
    exact .bool _
  · obtain rfl := of_decide_eq_true hsame
    exact .str _
  · cases hv with
    | array hvs =>
        cases hw with
        | array hws => exact .array (forall₂_equal hvs hws (sameAll_iff.mp hsame))
  · cases hv with
    | map hkeys hes =>
        cases hw with
        | map _ hfs =>
            obtain ⟨hlength, hsame⟩ := (Bool.and_eq_true _ _).mp hsame
            have hlength := of_decide_eq_true hlength
            exact .map hlength (rel_get?_of_sameEntries hkeys hlength hes hfs hsame)
  · exact .fn (of_decide_eq_true hsame)
  · obtain rfl := of_decide_eq_true hsame
    exact .builtin _
  · exact .unit
  · cases hv
  · cases hsame

theorem Equates.equal (h : Equates v w) (hv : v.Proper) (hw : w.Proper) :
  Equal v w
  := by
  refine ⟨hv, hw, ?_⟩
  cases h with
  | array hall =>
      rw [Value.same, sameAll_iff]
      exact hall.imp fun _ _ hvw => hvw.same
  | map hlength hget =>
      cases hv with
      | map hkeys _ =>
          rw [Value.same, sameEntries_of_rel_get? hkeys hget, Bool.and_true]
          exact decide_eq_true hlength
  | fn hserial => exact decide_eq_true hserial
  | unit => rfl
  | _ => exact decide_eq_true rfl

/-! ### An equivalence -/

theorem Proper.equal_self (hv : v.Proper) :
  Equal v v
  := by
  refine Equates.equal ?_ hv hv
  induction hv with
  | array hvs ih =>
      apply Equates.array
      rw [List.forall₂_same]
      exact fun v hv => (ih v hv).equal (hvs v hv) (hvs v hv)
  | @map _ es _ hes ih =>
      apply Equates.map rfl
      intro name
      cases hv : Dict.get? es name with
      | none => exact .none
      | some v =>
          have hmem := Dict.mem_of_get? hv
          exact .some ((ih _ hmem).equal (hes _ hmem) (hes _ hmem))
  | fn c => exact .fn rfl
  | unit => exact .unit
  | _ => constructor

theorem Equal.symm (h : Equal v w) :
  Equal w v
  := by
  have hv := h.left
  refine Equates.equal ?_ h.right hv
  induction hv generalizing w with
  | @array _ vs _ ih =>
      cases h.equates with
      | array hall =>
          apply Equates.array
          apply List.Forall₂.flip
          apply ((List.forall₂_and_left vs _).mpr ⟨fun v hv => @ih v hv, hall⟩).imp
          rintro v w ⟨hvw, h⟩
          exact (hvw h).equal h.right h.left
  | @map _ es _ _ ih =>
      cases h.equates with
      | @map _ _ _ fs hlength hget =>
          apply Equates.map hlength.symm
          intro name
          have hrel := hget name
          cases hv : Dict.get? es name with
          | none =>
              rw [hv] at hrel
              generalize Dict.get? fs name = o at hrel ⊢
              cases hrel
              exact .none
          | some v =>
              rw [hv] at hrel
              generalize Dict.get? fs name = o at hrel ⊢
              cases hrel with
              | some h => exact .some ((ih _ (Dict.mem_of_get? hv) h).equal h.right h.left)
  | fn c =>
      cases h.equates with
      | fn hserial => exact .fn hserial.symm
  | _ =>
      cases h.equates
      constructor

theorem forall₂_equal_trans {us vs ws : List Value}
    (htrans : ∀ u ∈ us, ∀ {v w}, Equal u v → Equal v w → Equal u w) (h : List.Forall₂ Equal us vs)
    (h' : List.Forall₂ Equal vs ws) :
  List.Forall₂ Equal us ws
  := by
  induction h generalizing ws with
  | nil => exact h'
  | cons huv _ ih =>
      cases h' with
      | cons hvw h' =>
          obtain ⟨hu, hus⟩ := List.forall_mem_cons.mp htrans
          exact .cons (hu huv hvw) (ih hus h')

theorem Equal.trans (h : Equal u v) (h' : Equal v w) :
  Equal u w
  := by
  have hu := h.left
  refine Equates.equal ?_ hu h'.right
  induction hu generalizing v w with
  | array _ ih =>
      cases h.equates with
      | array hall =>
          cases h'.equates with
          | array hall' =>
              apply Equates.array
              apply forall₂_equal_trans _ hall hall'
              exact fun u hu _ _ h h' => (ih u hu h h').equal h.left h'.right
  | @map _ es _ _ ih =>
      cases h.equates with
      | @map _ _ _ fs hlength hget =>
          cases h'.equates with
          | @map _ _ _ gs hlength' hget' =>
              apply Equates.map (hlength.trans hlength')
              intro name
              have hrel := hget name
              have hrel' := hget' name
              cases hu : Dict.get? es name with
              | none =>
                  rw [hu] at hrel
                  generalize Dict.get? fs name = o, Dict.get? gs name = o' at hrel hrel' ⊢
                  cases hrel
                  exact hrel'
              | some u =>
                  rw [hu] at hrel
                  generalize Dict.get? fs name = o, Dict.get? gs name = o' at hrel hrel' ⊢
                  cases hrel with
                  | some h =>
                      cases hrel' with
                      | some h' =>
                          have hmem := Dict.mem_of_get? hu
                          exact .some ((ih _ hmem h h').equal h.left h'.right)
  | fn c =>
      cases h.equates with
      | fn hserial =>
          cases h'.equates with
          | fn hserial' => exact .fn (hserial.trans hserial')
  | _ =>
      cases h.equates
      exact h'.equates

/-! ### Operations -/

/-- Operators and built-in functions make no difference between equal values. -/
theorem respected_equal :
  Respected Equal
  where
  corresponds h := by
    cases h.equates with
    | int n => exact .int n
    | bool b => exact .bool b
    | str s => exact .str s
    | array hall => exact .array hall
    | map hlength hget => exact .map hlength hget
    | fn _ => exact .fn _ _
    | builtin name => exact .builtin name name
    | unit => exact .unit
  int n := (Proper.int n).equal_self
  bool b := (Proper.bool b).equal_self
  str s := (Proper.str s).equal_self

/-- Two runs have equal values, or the same fault. -/
inductive Concur : EStateM.Result Fault Machine Value → EStateM.Result Fault Machine Value → Prop
  | ok {v w : Value} {m m' : Machine} : Equal v w → Concur (.ok v m) (.ok w m')
  | error (f : Fault) {m m' : Machine} : Concur (.error f m) (.error f m')

theorem concur_orFail (pos : Option Pos) {r r' : Except EvalCause Value}
    (h : AlikeOutcome Equal r r') (m m' : Machine) :
  Concur ((Eval.orFail pos r).run m) ((Eval.orFail pos r').run m')
  := by
  cases h with
  | ok hvw => exact .ok hvw
  | error cause => exact .error _

theorem concur_array (pos : Option Pos) {r r' : Except EvalCause (List Value)}
    (h : AlikeOutcome (List.Forall₂ Equal) r r') (m m' : Machine) :
  Concur ((Eval.orFail pos r >>= Eval.array).run m) ((Eval.orFail pos r' >>= Eval.array).run m')
  := by
  cases h with
  | error cause => exact .error _
  | ok hall =>
      obtain ⟨hvs, hws⟩ := proper_of_forall₂ hall
      exact .ok ((Equates.array hall).equal (.array hvs) (.array hws))

/-- The built-in functions that print nothing. -/
theorem concur_builtin {b : Builtin} (hb : b = .len ∨ b = .append ∨ b = .rest)
    {args args' : List Value} (h : List.Forall₂ Equal args args') (limit limit' : Nat)
    (pos : Option Pos) (m m' : Machine) :
  Concur ((b.call limit pos args).run m) ((b.call limit' pos args').run m')
  := by
  rcases hb with rfl | rfl | rfl
  · exact concur_orFail pos (respected_equal.length h) m m'
  · exact concur_array pos (respected_equal.extended h) m m'
  · exact concur_array pos (respected_equal.shortened h) m m'

end Value

/-! ### Comparing within a limit -/

namespace Verdict

/-- The verdict is right unless it is left open, and it is not left open if the limit is enough. -/
structure Decides (enough : Prop) (verdict : Verdict) (b : Bool) : Prop where
  right : verdict ≠ .undecided → verdict = .ofBool b
  reached : enough → verdict ≠ .undecided

variable {enough : Prop}

theorem decides_ofBool (b : Bool) :
  Decides enough (.ofBool b) b
  := by
  refine ⟨fun _ => rfl, fun _ => ?_⟩
  cases b <;> exact nofun

theorem Decides.mono {enough' : Prop} {verdict : Verdict} {b : Bool}
    (h : Decides enough verdict b) (hle : enough' → enough) :
  Decides enough' verdict b
  := ⟨h.right, fun henough => h.reached (hle henough)⟩

theorem Decides.both {first second : Verdict} {a b : Bool} (h : Decides enough first a)
    (h' : Decides enough second b) :
  Decides enough (both first second) (a && b)
  := by
  cases first with
  | equal =>
      have ha : a = true := by
        have hright := h.right nofun
        cases a with
        | true => rfl
        | false => cases hright
      rw [ha, Bool.true_and]
      exact h'
  | different =>
      have ha : a = false := by
        have hright := h.right nofun
        cases a with
        | true => cases hright
        | false => rfl
      rw [ha, Bool.false_and]
      exact decides_ofBool false
  | undecided =>
      exact ⟨fun hopen => absurd rfl hopen, fun henough => absurd rfl (h.reached henough)⟩

end Verdict

namespace Value

open Verdict

/-- A value stands in another one, however deep. -/
inductive Within : Value → Value → Prop
  | refl (v : Value) : Within v v
  | element {u v : Value} {serial : Serial} {vs : List Value} : v ∈ vs → Within u v →
      Within u (.array serial vs)
  | entry {u : Value} {p : String × Value} {serial : Serial} {es : Dict Value} : p ∈ es →
      Within u p.2 → Within u (.map serial es)

/-- Arrays and maps of one number that stand in the two values are the same. -/
structure Identified (v w : Value) : Prop where
  arrays : ∀ {i vs ws}, Within (.array i vs) v → Within (.array i ws) w → vs = ws
  maps : ∀ {i es fs}, Within (.map i es) v → Within (.map i fs) w → es = fs

variable {enough : Prop} {limit : Nat}

theorem decides_each {vs ws : List Value}
    (h : ∀ v ∈ vs, ∀ w ∈ ws, Decides enough (v.sameWithin limit w) (v.same w)) :
  Decides enough (each (sameWithin limit) vs ws) (sameAll vs ws)
  := by
  induction vs generalizing ws with
  | nil =>
      cases ws with
      | nil =>
          rw [each, sameAll]
          exact decides_ofBool true
      | cons w ws =>
          rw [each, sameAll]
          · exact decides_ofBool false
          all_goals nofun
  | cons v vs ih =>
      cases ws with
      | nil =>
          rw [each, sameAll]
          · exact decides_ofBool false
          all_goals nofun
      | cons w ws =>
          rw [each, sameAll]
          apply (h v List.mem_cons_self w List.mem_cons_self).both
          apply ih
          exact fun v hv w hw => h v (List.mem_cons_of_mem _ hv) w (List.mem_cons_of_mem _ hw)

theorem decides_lists {vs ws : List Value}
    (h : ∀ v ∈ vs, ∀ w ∈ ws, Decides enough (v.sameWithin limit w) (v.same w)) :
  Decides enough (lists (sameWithin limit) vs ws) (sameAll vs ws)
  := by
  have hlength : (decide (vs.length = ws.length) && sameAll vs ws) = sameAll vs ws := by
    rw [Bool.and_eq_right_iff_imp]
    intro hall
    exact decide_eq_true (sameAll_iff.mp hall).length_eq
  rw [← hlength]
  exact (decides_ofBool _).both (decides_each h)

theorem decides_entries {es fs : Dict Value}
    (h : ∀ p ∈ es, ∀ q ∈ fs, Decides enough (p.2.sameWithin limit q.2) (p.2.same q.2)) :
  Decides enough (entries (sameWithin limit) es fs) (sameEntries es fs)
  := by
  induction es with
  | nil =>
      rw [entries, sameEntries]
      exact decides_ofBool true
  | cons p es ih =>
      obtain ⟨k, v⟩ := p
      rw [entries, sameEntries]
      apply Decides.both
      · cases hw : Dict.get? fs k with
        | none => exact decides_ofBool false
        | some w => exact h (k, v) List.mem_cons_self (k, w) (Dict.mem_of_get? hw)
      · apply ih
        exact fun p hp => h p (List.mem_cons_of_mem _ hp)

theorem Identified.element {v w : Value} {i j : Serial} {vs ws : List Value}
    (h : Identified (.array i vs) (.array j ws)) (hv : v ∈ vs) (hw : w ∈ ws) :
  Identified v w
  := ⟨fun ha hb => h.arrays (.element hv ha) (.element hw hb),
    fun ha hb => h.maps (.element hv ha) (.element hw hb)⟩

theorem Identified.entry {p q : String × Value} {i j : Serial} {es fs : Dict Value}
    (h : Identified (.map i es) (.map j fs)) (hp : p ∈ es) (hq : q ∈ fs) :
  Identified p.2 q.2
  := ⟨fun ha hb => h.arrays (.entry hp ha) (.entry hq hb),
    fun ha hb => h.maps (.entry hp ha) (.entry hq hb)⟩

/-- Comparing a value within a limit tells whether it is equal to another one, and a limit that is
not smaller than the value is enough. -/
theorem decides_sameWithin {v w : Value} (hv : v.Proper) (h : Identified v w) (limit : Nat) :
  Decides (sizeOf v ≤ limit) (v.sameWithin limit w) (v.same w)
  := by
  induction limit generalizing v w with
  | zero =>
      refine ⟨fun hopen => absurd (by rw [sameWithin]) hopen, ?_⟩
      intro hsize
      cases v <;> simp at hsize
  | succ limit ih =>
      have hself := hv.equal_self.same
      unfold sameWithin
      split
      · rename_i i vs j ws
        split
        · rename_i hij
          subst hij
          obtain rfl := h.arrays (.refl _) (.refl _)
          rw [hself]
          exact decides_ofBool true
        · rw [Value.same]
          cases hv with
          | array hvs =>
              apply decides_lists
              intro v hv w hw
              apply (ih (hvs v hv) (h.element hv hw)).mono
              intro hsize
              have hlt := List.sizeOf_lt_of_mem hv
              simp only [array.sizeOf_spec] at hsize
              omega
      · rename_i i es j fs
        split
        · rename_i hij
          subst hij
          obtain rfl := h.maps (.refl _) (.refl _)
          rw [hself]
          exact decides_ofBool true
        · rw [Value.same]
          cases hv with
          | map _ hes =>
              apply (decides_ofBool _).both
              apply decides_entries
              intro p hp q hq
              apply (ih (hes p hp) (h.entry hp hq)).mono
              intro hsize
              have hlt := List.sizeOf_lt_of_mem hp
              have hentry : sizeOf p.2 < sizeOf p := by
                cases p
                simp only [Prod.mk.sizeOf_spec]
                omega
              simp only [map.sizeOf_spec] at hsize
              omega
      · cases hv
      · exact decides_ofBool _

/-- Equality of values is an equivalence, and operations respect it.  On values in which nothing is
on its way out of a call and no key of a map comes twice it is reflexive, symmetric and transitive,
and relates values of one kind only.  From equal values the operators, indexing and the built-in
functions that do not print come to equal values, or fail in the same way.  If numbers tell arrays
and maps apart, comparing within a limit finds out whether two values are equal, as soon as the
limit is large enough. -/
theorem equality_is_respected :
  (∀ v : Value, v.Proper → v.same v = true)
    ∧ (∀ v w : Value, v.Proper → w.Proper → v.same w = true → w.same v = true ∧ v.kind = w.kind)
    ∧ (∀ u v w : Value, u.Proper → v.Proper → w.Proper → u.same v = true → v.same w = true →
      u.same w = true)
    ∧ (∀ v v', Equal v v' → ∀ op, AlikeOutcome Equal (unary op v) (unary op v'))
    ∧ (∀ v v' w w', Equal v v' → Equal w w' →
      (∀ op, AlikeOutcome Equal (binary op v w) (binary op v' w'))
        ∧ AlikeOutcome Equal (index v w) (index v' w'))
    ∧ (∀ b args args', b = .len ∨ b = .append ∨ b = .rest → List.Forall₂ Equal args args' →
      ∀ limit limit' pos m m',
        Concur ((Builtin.call limit pos args b).run m) ((Builtin.call limit' pos args' b).run m'))
    ∧ ∀ v w : Value, v.Proper → Identified v w → ∀ limit,
      (v.sameWithin limit w ≠ .undecided → v.sameWithin limit w = .ofBool (v.same w))
        ∧ (sizeOf v ≤ limit → v.sameWithin limit w ≠ .undecided)
  := by
  refine ⟨?_, ?_, ?_, ?_, ?_, ?_, ?_⟩
  · exact fun v hv => hv.equal_self.same
  · intro v w hv hw hsame
    have h : Equal v w := ⟨hv, hw, hsame⟩
    exact ⟨h.symm.same, (respected_equal.corresponds h).kind_eq⟩
  · intro u v w hu hv hw huv hvw
    have h : Equal u v := ⟨hu, hv, huv⟩
    exact (h.trans ⟨hv, hw, hvw⟩).same
  · exact fun v v' h op => respected_equal.unary op h
  · intro v v' w w' h h'
    exact ⟨fun op => respected_equal.binary op h h', respected_equal.index h h'⟩
  · exact fun b args args' hb h limit limit' pos m m' => concur_builtin hb h limit limit' pos m m'
  · intro v w hv h limit
    have hdecides := decides_sameWithin hv h limit
    exact ⟨hdecides.right, hdecides.reached⟩

/-- Two maps with the same entries in another order are equal; arrays of `1` and of `true` are
different. -/
theorem equality_is_respected_reordered :
  let v : Value := .map 0 [("a", .array 1 [.int 1]), ("b", .bool true)]
  let w : Value := .map 2 [("b", .bool true), ("a", .array 3 [.int 1])]
  (v.same w = true ∧ w.same v = true ∧ v.same v = true)
    ∧ AlikeOutcome Equal (unary .not v) (unary .not w)
    ∧ AlikeOutcome Equal (index v (.str "a")) (index w (.str "a"))
    ∧ (∀ m m', Concur ((Builtin.call 1 none [v] .len).run m)
      ((Builtin.call 9 none [w] .len).run m'))
    ∧ (array 1 [.int 1]).sameWithin 9 (.array 3 [.bool true]) = .different
  := by
  intro v w
  obtain ⟨hrefl, hsymm, htrans, hunary, hbinary, hbuiltin, hwithin⟩ := equality_is_respected
  have hone : (array 1 [.int 1]).Proper := .array (List.forall_mem_singleton.mpr (.int 1))
  have hv : v.Proper := by
    apply Proper.map (by decide)
    simp only [List.forall_mem_cons]
    exact ⟨hone, .bool true, nofun⟩
  have hw : w.Proper := by
    apply Proper.map (by decide)
    simp only [List.forall_mem_cons]
    exact ⟨.bool true, .array (List.forall_mem_singleton.mpr (.int 1)), nofun⟩
  have hsame : v.same w = true := by decide
  have hback := (hsymm v w hv hw hsame).1
  have hvw : Equal v w := ⟨hv, hw, hsame⟩
  have hkey : Equal (.str "a") (.str "a") := ⟨.str "a", .str "a", hrefl _ (.str "a")⟩
  have hidentified : Identified (.array 1 [.int 1]) (.array 3 [.bool true]) := by
    constructor
    · intro i vs ws h h'
      rcases h with _ | ⟨hmem, h⟩
      · rcases h' with _ | ⟨hmem, h'⟩
        rw [List.mem_singleton.mp hmem] at h'
        cases h'
      · rw [List.mem_singleton.mp hmem] at h
        cases h
    · intro i es fs h
      rcases h with _ | ⟨hmem, h⟩
      rw [List.mem_singleton.mp hmem] at h
      cases h
  refine ⟨⟨hsame, hback, htrans v w v hv hw hv hsame hback⟩, hunary v w hvw .not,
    (hbinary v w _ _ hvw hkey).2, ?_, ?_⟩
  · exact fun m m' => hbuiltin .len _ _ (.inl rfl) (.cons hvw .nil) 1 9 none m m'
  · obtain ⟨hright, hreached⟩ := hwithin _ _ hone hidentified 9
    exact hright (hreached (by decide))

end Value

end ExprScript
