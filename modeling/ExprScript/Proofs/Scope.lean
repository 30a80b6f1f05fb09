import ExprScript.Scope

/-!
# What the operations on scopes change

Making a scope changes no bindings, and binding a name changes the bindings of one scope, where
it stores the value under the name.  The heap never gets smaller.
-/

namespace ExprScript

namespace Dict

variable {α : Type}

/-- A value that is found is stored. -/
theorem mem_of_get? {d : Dict α} {name : String} {a : α} (h : get? d name = some a) :
  (name, a) ∈ d
  := by
  induction d with
  | nil => cases h
  | cons p d ih =>
      obtain ⟨k, v⟩ := p
      unfold get? at h
      split at h
      · rename_i hk
        cases h
        rw [hk]
        apply List.mem_cons_self
      · apply List.mem_cons_of_mem _ (ih h)

/-- The value of a name is found in a dictionary with distinct names. -/
theorem get?_of_mem {d : Dict α} (hn : (d.map Prod.fst).Nodup)
    {p : String × α} (hp : p ∈ d) :
  get? d p.1 = some p.2
  := by
  induction d with
  | nil => cases hp
  | cons q d ih =>
      obtain ⟨hq, hn⟩ := List.nodup_cons.mp hn
      rcases List.mem_cons.mp hp with rfl | hp
      · simp [get?]
      · have hne : q.1 ≠ p.1 := by
          intro h
          apply hq
          rw [h]
          apply List.mem_map_of_mem hp
        rw [get?, if_neg hne]
        apply ih hn hp

/-- The names of a dictionary are those under which something is stored. -/
theorem mem_names_iff (d : Dict α) (name : String) :
  name ∈ names d ↔ (get? d name).isSome
  := by
  induction d with
  | nil => simp [names, get?]
  | cons p d ih =>
      obtain ⟨k, v⟩ := p
      by_cases hk : k = name
      · simp [names, get?, hk]
      · have hk' : name ≠ k := fun h => hk h.symm
        simpa [names, get?, hk, hk'] using ih

/-- What is stored after storing a value was stored before, or is the value. -/
theorem mem_set {d : Dict α} {name : String} {a : α} {p : String × α} (h : p ∈ set d name a) :
  p ∈ d ∨ p.2 = a
  := by
  induction d with
  | nil =>
      obtain rfl := List.mem_singleton.mp h
      exact .inr rfl
  | cons q d ih =>
      obtain ⟨k, v⟩ := q
      unfold set at h
      split at h
      · rcases List.mem_cons.mp h with rfl | h
        · exact .inr rfl
        · exact .inl (List.mem_cons_of_mem _ h)
      · rcases List.mem_cons.mp h with rfl | h
        · exact .inl List.mem_cons_self
        · rcases ih h with h | h
          · exact .inl (List.mem_cons_of_mem _ h)
          · exact .inr h

end Dict

namespace Heap

variable (h : Heap) (id : ScopeId) (name : String) (v : Value)

/-! ### Sizes -/

@[simp]
theorem size_create (outer : Option ScopeId) :
  (h.create outer).2.size = h.size + 1
  := Array.size_push _

@[simp]
theorem size_set :
  (h.set id name v).size = h.size
  := Array.size_modify

@[simp]
theorem size_setAll (pairs : List (String × Value)) :
  (h.setAll id pairs).size = h.size
  := by
  induction pairs generalizing h with
  | nil => rfl
  | cons p pairs ih =>
      rw [setAll, List.foldl_cons]
      apply (ih (h.set id p.1 p.2)).trans
      apply size_set

/-! ### Scopes and their bindings -/

/-- Making a scope does not affect the scopes that exist. -/
theorem scopes_create (outer : Option ScopeId) {i : ScopeId} (hi : i < h.size) :
  (h.create outer).2.scopes[i]? = h.scopes[i]?
  := by
  rw [create, Array.getElem?_push, if_neg]
  rintro rfl
  apply Nat.lt_irrefl _ hi

/-- Binding a name does not affect any other scope. -/
theorem scopes_set {i : ScopeId} (hi : i ≠ id) :
  (h.set id name v).scopes[i]? = h.scopes[i]?
  := by
  rw [set, Array.getElem?_modify, if_neg (Ne.symm hi)]

theorem scopes_setAll (pairs : List (String × Value)) {i : ScopeId} (hi : i ≠ id) :
  (h.setAll id pairs).scopes[i]? = h.scopes[i]?
  := by
  induction pairs generalizing h with
  | nil => rfl
  | cons p pairs ih =>
      rw [setAll, List.foldl_cons]
      apply (ih (h.set id p.1 p.2)).trans
      apply scopes_set h id p.1 p.2 hi

/-- A new scope has no bindings, and no other scope is affected. -/
@[simp]
theorem bindings_create (outer : Option ScopeId) :
  (h.create outer).2.bindings = h.bindings
  := by
  funext i
  unfold bindings
  by_cases hi : i < h.size
  · rw [scopes_create h outer hi]
  · have hnone : h.scopes[i]? = none := Array.getElem?_eq_none (Nat.le_of_not_lt hi)
    rw [hnone, create, Array.getElem?_push]
    by_cases he : i = h.scopes.size <;> simp [he, hnone]

/-- Binding a name stores the value in one scope, if the scope exists. -/
theorem bindings_set (i : ScopeId) :
  (h.set id name v).bindings i
    = if i = id ∧ id < h.size then Dict.set (h.bindings id) name v else h.bindings i
  := by
  by_cases hi : i = id
  · subst hi
    unfold bindings set size
    by_cases hlt : i < h.scopes.size <;> simp [hlt, Array.getElem_modify]
  · rw [if_neg (fun hc => hi hc.1)]
    unfold bindings
    rw [scopes_set h id name v hi]

/-- A new scope lies where it was asked for, and no other scope is moved. -/
theorem outer?_create (outer : Option ScopeId) (i : ScopeId) :
  (h.create outer).2.outer? i = if i = h.size then outer else h.outer? i
  := by
  unfold outer? size
  rw [create, Array.getElem?_push]
  by_cases hi : i = h.scopes.size
  · rw [if_pos hi, if_pos hi]
    rfl
  · rw [if_neg hi, if_neg hi]

/-- Binding a name moves no scope. -/
theorem outer?_set (i : ScopeId) :
  (h.set id name v).outer? i = h.outer? i
  := by
  unfold outer? set
  rw [Array.getElem?_modify]
  split
  · cases h.scopes[i]? <;> rfl
  · rfl

theorem outer?_setAll (pairs : List (String × Value)) (i : ScopeId) :
  (h.setAll id pairs).outer? i = h.outer? i
  := by
  induction pairs generalizing h with
  | nil => rfl
  | cons p pairs ih =>
      rw [setAll, List.foldl_cons]
      apply (ih (h.set id p.1 p.2)).trans
      apply outer?_set

/-- A chain depends on the scopes around scopes only. -/
theorem chain_congr {h h' : Heap} (houter : ∀ i, h.outer? i = h'.outer? i) (id : ScopeId) :
  h.chain id = h'.chain id
  := by
  fun_induction h'.chain id with
  | case1 id hid => rw [chain, houter id, hid]
  | case2 id o hid hlt ih =>
      rw [chain, houter id, hid]
      simp only [hlt, if_true, ih]
  | case3 id o hid hlt =>
      rw [chain, houter id, hid]
      simp only [hlt, if_false]

/-- The chain of a scope starts with the scope. -/
theorem chain_eq_cons :
  ∃ outer, h.chain id = id :: outer
  := by
  rw [chain]
  split
  · exact ⟨[], rfl⟩
  · split
    · exact ⟨_, rfl⟩
    · exact ⟨[], rfl⟩

/-- A name that is bound in a scope stands for its value there. -/
theorem get?_set_self (hid : id < h.size) :
  (h.set id name v).get? id name = some v
  := by
  obtain ⟨outer, hchain⟩ := (h.set id name v).chain_eq_cons id
  have hbindings : (h.set id name v).bindings id = Dict.set (h.bindings id) name v := by
    rw [bindings_set, if_pos ⟨rfl, hid⟩]
  rw [get?, hchain, List.findSome?_cons, hbindings, Dict.get?_set, if_pos rfl]

/-! ### Heaps that grow -/

/-- The scopes of a heap are unchanged in another one, except perhaps the one that is free to
change; there may be further ones. -/
structure Extends (free : Option ScopeId) (h h' : Heap) : Prop where
  size : h.size ≤ h'.size
  scopes : ∀ i, i < h.size → free ≠ some i → h'.scopes[i]? = h.scopes[i]?

namespace Extends

variable {free : Option ScopeId} {h h₁ h₂ : Heap}

theorem refl (free : Option ScopeId) (h : Heap) :
  Extends free h h
  := ⟨Nat.le_refl _, fun _ _ _ => rfl⟩

theorem trans (hh : Extends free h h₁) (hh' : Extends free h₁ h₂) :
  Extends free h h₂
  := by
  refine ⟨Nat.le_trans hh.size hh'.size, ?_⟩
  intro i hi hfree
  rw [hh'.scopes i (Nat.lt_of_lt_of_le hi hh.size) hfree]
  apply hh.scopes i hi hfree

theorem widen (hh : Extends none h h₁) (free : Option ScopeId) :
  Extends free h h₁
  := ⟨hh.size, fun i hi _ => hh.scopes i hi (Option.some_ne_none i).symm⟩

theorem bindings (hh : Extends free h h₁) {i : ScopeId} (hi : i < h.size)
    (hfree : free ≠ some i) :
  h₁.bindings i = h.bindings i
  := by
  unfold Heap.bindings
  rw [hh.scopes i hi hfree]

end Extends

/-- Binding a name in a scope leaves the other scopes unchanged. -/
theorem extends_set :
  Extends (some id) h (h.set id name v)
  := by
  refine ⟨Nat.le_of_eq (size_set h id name v).symm, ?_⟩
  intro i _ hi
  apply scopes_set h id name v
  rintro rfl
  apply hi rfl

/-- A new scope with its bindings leaves the scopes before it unchanged. -/
theorem extends_create (outer : Option ScopeId) (pairs : List (String × Value)) :
  Extends none h ((h.create outer).2.setAll h.size pairs)
  := by
  refine ⟨?_, ?_⟩
  · rw [size_setAll, size_create]
    apply Nat.le_succ
  · intro i hi _
    rw [scopes_setAll _ _ _ (Nat.ne_of_lt hi), scopes_create h outer hi]

/-! ### Properties of all bound values -/

/-- Every value that some scope binds has a property. -/
def Every (P : Value → Prop) (h : Heap) : Prop := ∀ i, ∀ p ∈ h.bindings i, P p.2

namespace Every

variable {P Q : Value → Prop} {h : Heap}

theorem mono (hh : h.Every P) (hPQ : ∀ v, P v → Q v) :
  h.Every Q
  := fun i p hp => hPQ p.2 (hh i p hp)

theorem create (hh : h.Every P) (outer : Option ScopeId) :
  (h.create outer).2.Every P
  := by
  intro i
  rw [bindings_create]
  apply hh i

theorem set (hh : h.Every P) (id : ScopeId) (name : String) {v : Value} (hv : P v) :
  (h.set id name v).Every P
  := by
  intro i p hp
  rw [bindings_set] at hp
  split at hp
  · rcases Dict.mem_set hp with hp | rfl
    · apply hh id p hp
    · apply hv
  · apply hh i p hp

theorem setAll (hh : h.Every P) (id : ScopeId) {pairs : List (String × Value)}
    (hpairs : ∀ p ∈ pairs, P p.2) :
  (h.setAll id pairs).Every P
  := by
  induction pairs generalizing h with
  | nil => apply hh
  | cons p pairs ih =>
      rw [Heap.setAll, List.foldl_cons]
      apply ih (hh.set id p.1 (hpairs p List.mem_cons_self))
      intro q hq
      apply hpairs q (List.mem_cons_of_mem _ hq)

/-- What a name stands for is bound in some scope. -/
theorem get? (hh : h.Every P) {id : ScopeId} {name : String} {v : Value}
    (hv : h.get? id name = some v) :
  P v
  := by
  obtain ⟨i, _, hi⟩ := List.exists_of_findSome?_eq_some hv
  apply hh i _ (Dict.mem_of_get? hi)

end Every

end Heap

end ExprScript
