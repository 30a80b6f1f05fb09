import ExprScript.Proofs.Scope

/-!
# Histories of scopes

Whatever is done with scopes, and in whatever order, every scope lies in an older one, so that
going outward from a scope comes to an end.  A name stands for the value that was stored last for it
in the nearest scope on the way out in which any was stored.  Storing a value is seen by those
scopes only that come to it on their way out, and under that name only.
-/

namespace ExprScript

namespace Heap

/-- What can be done with scopes. -/
inductive Act where
  | create (outer : Option ScopeId)
  | set (id : ScopeId) (name : String) (v : Value)
  | get (id : ScopeId) (name : String)

namespace Act

/-- The scopes that the act is about exist. -/
def Possible (h : Heap) : Act → Prop
  | .create outer => ∀ o, outer = some o → o < h.size
  | .set id _ _ | .get id _ => id < h.size

/-- The heap after an act.  Looking up a name leaves it as it is. -/
def perform (h : Heap) : Act → Heap
  | .create outer => (h.create outer).2
  | .set id name v => h.set id name v
  | .get _ _ => h

/-- The value that an act stores for a name in a scope. -/
def stored? (id : ScopeId) (name : String) : Act → Option Value
  | .set i n v => if i = id ∧ n = name then some v else none
  | _ => none

end Act

/-- A heap that some acts lead to from the heap without scopes.  The latest act comes first. -/
inductive History : List Act → Heap → Prop
  | empty : History [] .empty
  | act {acts h a} : History acts h → a.Possible h → History (a :: acts) (a.perform h)

/-- The value that was stored last for a name in a scope, if any was. -/
def latest? (acts : List Act) (id : ScopeId) (name : String) : Option Value :=
  acts.findSome? (Act.stored? id name)

/-- The scopes on the way out from a scope, each inside the one after it, up to one that lies
inside no other. -/
inductive Outward (h : Heap) : ScopeId → List ScopeId → Prop
  | last {id} : h.outer? id = none → Outward h id [id]
  | inside {id o ids} : h.outer? id = some o → Outward h o ids → Outward h id (id :: ids)

/-- The laws of scopes after some acts. -/
structure Lexical (acts : List Act) (h : Heap) : Prop where
  /-- A scope was made after the one that it lies in. -/
  older : ∀ {id o}, h.outer? id = some o → o < id
  /-- From every scope the way out comes to an end. -/
  ends : ∀ id, h.Outward id (h.chain id)
  /-- A name stands for what was stored last in the nearest scope that has it. -/
  found : ∀ {id name v}, h.get? id name = some v
    ↔ ∃ nearer i further, h.chain id = nearer ++ i :: further
      ∧ latest? acts i name = some v ∧ ∀ j ∈ nearer, latest? acts j name = none
  /-- A name stands for nothing if no scope on the way out has it, and only then. -/
  unknown : ∀ {id name}, h.get? id name = none ↔ ∀ i ∈ h.chain id, latest? acts i name = none
  /-- Storing a value changes what is seen under its name, from where the scope is on the way out
  and no nearer one has the name. -/
  seen : ∀ {id name v id' name'}, (h.set id name v).get? id' name' ≠ h.get? id' name' →
    name' = name ∧ ∃ nearer further, h.chain id' = nearer ++ id :: further
      ∧ ∀ j ∈ nearer, latest? acts j name = none

variable {acts : List Act} {h : Heap}

/-! ### The way out -/

theorem History.older (hh : History acts h) {id o : ScopeId} (ho : h.outer? id = some o) :
  o < id
  := by
  induction hh with
  | empty => cases ho
  | @act acts h a _ ha ih =>
      cases a with
      | create outer =>
          rw [Act.perform, outer?_create] at ho
          split at ho
          · rename_i hid
            rw [hid]
            apply ha o ho
          · apply ih ho
      | set i name v =>
          rw [Act.perform, outer?_set] at ho
          apply ih ho
      | get i name => apply ih ho

/-- Where every scope lies in an older one, the chain of a scope goes all the way out. -/
theorem outward_chain (holder : ∀ {id o}, h.outer? id = some o → o < id) (id : ScopeId) :
  h.Outward id (h.chain id)
  := by
  fun_induction h.chain id with
  | case1 id hid => exact .last hid
  | case2 id o hid _ ih => exact .inside hid ih
  | case3 id o hid hlt => exact absurd (holder hid) hlt

/-! ### What a name stands for -/

/-- A scope binds a name to what was stored last for it. -/
theorem History.get?_bindings (hh : History acts h) (id : ScopeId) (name : String) :
  Dict.get? (h.bindings id) name = latest? acts id name
  := by
  induction hh with
  | empty => rfl
  | @act acts h a _ ha ih =>
      rw [latest?, List.findSome?_cons]
      cases a with
      | create outer =>
          rw [Act.perform, bindings_create]
          apply ih
      | set i n v =>
          have hi : i < h.size := ha
          rw [Act.perform, bindings_set, Act.stored?]
          by_cases hid : i = id
          · subst hid
            rw [if_pos ⟨rfl, hi⟩, Dict.get?_set]
            by_cases hn : n = name
            · rw [if_pos hn, if_pos ⟨rfl, hn⟩]
            · rw [if_neg hn, if_neg fun hc => hn hc.2]
              apply ih
          · rw [if_neg fun hc => hid hc.1.symm, if_neg fun hc => hid hc.1]
            apply ih
      | get i n => apply ih

theorem History.get?_eq (hh : History acts h) (id : ScopeId) (name : String) :
  h.get? id name = (h.chain id).findSome? (latest? acts · name)
  := by
  rw [Heap.get?]
  congr 1
  funext i
  apply hh.get?_bindings

/-! ### What storing a value changes -/

/-- Two searches that differ come to an item on which they differ, and find nothing before it. -/
theorem exists_of_findSome?_ne {α β : Type} {f g : α → Option β} {as : List α}
    (h : as.findSome? f ≠ as.findSome? g) :
  ∃ before a after, as = before ++ a :: after ∧ f a ≠ g a ∧ ∀ b ∈ before, g b = none
  := by
  induction as with
  | nil => exact absurd rfl h
  | cons a as ih =>
      by_cases ha : f a = g a
      · rw [List.findSome?_cons, List.findSome?_cons, ha] at h
        cases hg : g a with
        | some b =>
            rw [hg] at h
            exact absurd rfl h
        | none =>
            rw [hg] at h
            obtain ⟨before, c, after, rfl, hc, hbefore⟩ := ih h
            exact ⟨a :: before, c, after, rfl, hc, List.forall_mem_cons.mpr ⟨hg, hbefore⟩⟩
      · exact ⟨[], a, as, rfl, ha, nofun⟩

/-- A value that is stored is found in its scope and under its name only. -/
theorem get?_bindings_set_of_ne {id i : ScopeId} {name other : String} {v : Value}
    (hne : Dict.get? ((h.set id name v).bindings i) other ≠ Dict.get? (h.bindings i) other) :
  i = id ∧ other = name
  := by
  rw [bindings_set] at hne
  split at hne
  · rename_i hi
    rw [Dict.get?_set, hi.1] at hne
    by_cases hother : name = other
    · exact ⟨hi.1, hother.symm⟩
    · rw [if_neg hother] at hne
      exact absurd rfl hne
  · exact absurd rfl hne

theorem History.seen (hh : History acts h) {id id' : ScopeId} {name name' : String} {v : Value}
    (hne : (h.set id name v).get? id' name' ≠ h.get? id' name') :
  name' = name ∧ ∃ nearer further, h.chain id' = nearer ++ id :: further
    ∧ ∀ j ∈ nearer, latest? acts j name = none
  := by
  have hchain : (h.set id name v).chain id' = h.chain id' :=
    chain_congr (outer?_set h id name v) id'
  rw [Heap.get?, Heap.get?, hchain] at hne
  obtain ⟨nearer, i, further, hsplit, hi, hnearer⟩ := exists_of_findSome?_ne hne
  obtain ⟨rfl, rfl⟩ := get?_bindings_set_of_ne hi
  refine ⟨rfl, nearer, further, hsplit, ?_⟩
  intro j hj
  rw [← hh.get?_bindings]
  apply hnearer j hj

/-- The laws hold after all acts. -/
theorem History.lexical (hh : History acts h) :
  Lexical acts h
  := by
  constructor
  case older => exact hh.older
  case ends => exact outward_chain hh.older
  case found =>
    intro id name v
    rw [hh.get?_eq, List.findSome?_eq_some_iff]
  case unknown =>
    intro id name
    rw [hh.get?_eq, List.findSome?_eq_none_iff]
  case seen => exact hh.seen

/-! ### Going on -/

/-- Further acts lead from a heap to another one, whatever acts have led to the first, and the
scopes there were stay where they are. -/
structure Becomes (h h' : Heap) : Prop where
  size : h.size ≤ h'.size
  outer : ∀ {id}, id < h.size → h'.outer? id = h.outer? id
  acts : ∀ {acts}, History acts h → ∃ more, History (more ++ acts) h'

namespace Becomes

variable {h₁ h₂ : Heap}

theorem refl (h : Heap) :
  Becomes h h
  := ⟨Nat.le_refl _, fun _ => rfl, fun hh => ⟨[], hh⟩⟩

theorem trans (hh : Becomes h h₁) (hh' : Becomes h₁ h₂) :
  Becomes h h₂
  := by
  constructor
  case size => exact Nat.le_trans hh.size hh'.size
  case outer =>
    intro id hid
    rw [hh'.outer (Nat.lt_of_lt_of_le hid hh.size), hh.outer hid]
  case acts =>
    intro acts hacts
    obtain ⟨more, hmore⟩ := hh.acts hacts
    obtain ⟨further, hfurther⟩ := hh'.acts hmore
    rw [← List.append_assoc] at hfurther
    exact ⟨further ++ more, hfurther⟩

end Becomes

theorem becomes_create {o : ScopeId} (ho : o < h.size) :
  Becomes h (h.create (some o)).2
  := by
  constructor
  case size =>
    rw [size_create]
    apply Nat.le_succ
  case outer =>
    intro id hid
    rw [outer?_create, if_neg (Nat.ne_of_lt hid)]
  case acts =>
    refine fun hh => ⟨[.create (some o)], .act (a := .create (some o)) hh ?_⟩
    rintro _ ⟨⟩
    apply ho

theorem becomes_set {id : ScopeId} (hid : id < h.size) (name : String) (v : Value) :
  Becomes h (h.set id name v)
  where
  size := Nat.le_of_eq (size_set h id name v).symm
  outer _ := outer?_set h id name v _
  acts hh := ⟨[.set id name v], .act (a := .set id name v) hh hid⟩

theorem becomes_setAll {id : ScopeId} (hid : id < h.size) (pairs : List (String × Value)) :
  Becomes h (h.setAll id pairs)
  := by
  induction pairs generalizing h with
  | nil => apply Becomes.refl
  | cons p pairs ih =>
      apply (becomes_set hid p.1 p.2).trans
      apply ih
      rw [size_set]
      apply hid

/-- A new scope is made in one that exists, and then its bindings are stored. -/
theorem becomes_enter {o : ScopeId} (ho : o < h.size) (pairs : List (String × Value)) :
  Becomes h ((h.create (some o)).2.setAll h.size pairs)
  := by
  apply (becomes_create ho).trans
  apply becomes_setAll
  rw [size_create]
  apply Nat.lt_succ_self

/-! ### One outermost scope -/

/-- There is a scope, and it is the only one that lies inside no other. -/
structure Rooted (root : ScopeId) (h : Heap) : Prop where
  exists_root : root < h.size
  unique : ∀ {id}, id < h.size → (h.outer? id = none ↔ id = root)

namespace Rooted

variable {root : ScopeId}

theorem create (hh : Rooted root h) (o : ScopeId) :
  Rooted root (h.create (some o)).2
  := by
  constructor
  · rw [size_create]
    apply Nat.lt_succ_of_lt hh.exists_root
  · intro id hid
    rw [size_create] at hid
    rw [outer?_create]
    split
    · rename_i hnew
      have hne : id ≠ root := by
        rw [hnew]
        apply (Nat.ne_of_lt hh.exists_root).symm
      simp [hne]
    · rename_i hold
      apply hh.unique (Nat.lt_of_le_of_ne (Nat.le_of_lt_succ hid) hold)

theorem setAll (hh : Rooted root h) (id : ScopeId) (pairs : List (String × Value)) :
  Rooted root (h.setAll id pairs)
  := by
  constructor
  · rw [size_setAll]
    apply hh.exists_root
  · intro i hi
    rw [size_setAll] at hi
    rw [outer?_setAll]
    apply hh.unique hi

theorem set (hh : Rooted root h) (id : ScopeId) (name : String) (v : Value) :
  Rooted root (h.set id name v)
  := hh.setAll id [(name, v)]

/-- The way out ends at the outermost scope. -/
theorem getLast?_of_outward (hh : Rooted root h) (holder : ∀ {id o}, h.outer? id = some o → o < id)
    {id : ScopeId} {ids : List ScopeId} (houtward : h.Outward id ids) (hid : id < h.size) :
  ids.getLast? = some root
  := by
  induction houtward with
  | last hnone => rw [List.getLast?_singleton, (hh.unique hid).mp hnone]
  | @inside id o ids ho houtward ih =>
      have hlast := ih (Nat.lt_trans (holder ho) hid)
      rw [List.getLast?_cons, hlast]
      rfl

end Rooted

end Heap

end ExprScript
