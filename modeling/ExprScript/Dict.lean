/-!
# Dictionaries in insertion order

A dictionary is a list of pairs of a name and a value.  Storing under a name that is
present changes the value in its place; a new name goes to the end.
-/

namespace ExprScript

/-- Values under names, in the order in which the names were first stored. -/
abbrev Dict (α : Type) := List (String × α)

namespace Dict

variable {α : Type}

/-- The value stored under a name. -/
def get? : Dict α → String → Option α
  | [], _ => none
  | (k, v) :: d, name => if k = name then some v else get? d name

/-- Stores a value under a name. -/
def set : Dict α → String → α → Dict α
  | [], name, a => [(name, a)]
  | (k, v) :: d, name, a => if k = name then (k, a) :: d else (k, v) :: set d name a

/-- Stores a list of pairs one after the other. -/
def setAll (d : Dict α) (pairs : List (String × α)) : Dict α :=
  pairs.foldl (fun d p => set d p.1 p.2) d

/-- The names, in order. -/
def names (d : Dict α) : List String := d.map Prod.fst

/-- The pairs sorted by name, code point by code point. -/
def sorted (d : Dict α) : Dict α := d.mergeSort fun p q => decide (p.1 ≤ q.1)

/-- A stored value is found, and no other name is affected. -/
theorem get?_set (d : Dict α) (name other : String) (a : α) :
  get? (set d name a) other = if name = other then some a else get? d other
  := by
  induction d with
  | nil => simp [set, get?]
  | cons p d ih =>
      obtain ⟨k, v⟩ := p
      by_cases h : k = name
      · by_cases h' : name = other <;> simp_all [set, get?]
      · by_cases h' : name = other
        · have : k ≠ other := fun e => h (e.trans h'.symm)
          simp_all [set, get?]
        · simp_all [set, get?]

end Dict

end ExprScript
