import ExprScript.Dict
import ExprScript.Value

/-!
# Scopes

A scope binds names to values and may lie inside another scope, which was made before it.
All scopes live in a heap and are known by their number.  Looking up a name searches the
chain of scopes from the inside out; binding a name changes one scope only.
-/

namespace ExprScript

/-- A scope: its bindings, and the scope around it. -/
structure Scope where
  bindings : Dict Value
  outer : Option ScopeId

/-- All scopes made so far, each under its number. -/
structure Heap where
  scopes : Array Scope

namespace Heap

/-- The heap without scopes. -/
def empty : Heap := ⟨#[]⟩

/-- The number of scopes made so far, which is the number of the next one. -/
def size (h : Heap) : Nat := h.scopes.size

/-- The scope around a scope. -/
def outer? (h : Heap) (id : ScopeId) : Option ScopeId := h.scopes[id]?.bind Scope.outer

/-- The bindings of a scope itself. -/
def bindings (h : Heap) (id : ScopeId) : Dict Value :=
  match h.scopes[id]? with
  | some s => s.bindings
  | none => []

/-- Makes a new scope without bindings. -/
def create (h : Heap) (outer : Option ScopeId) : ScopeId × Heap :=
  (h.size, ⟨h.scopes.push ⟨[], outer⟩⟩)

/-- Binds a name in a scope. -/
def set (h : Heap) (id : ScopeId) (name : String) (v : Value) : Heap :=
  ⟨h.scopes.modify id fun s => { s with bindings := Dict.set s.bindings name v }⟩

/-- Binds names in a scope one after the other. -/
def setAll (h : Heap) (id : ScopeId) (pairs : List (String × Value)) : Heap :=
  pairs.foldl (fun h p => h.set id p.1 p.2) h

/-- A scope and the scopes around it, from the inside out.  Every scope lies inside an older
one. -/
def chain (h : Heap) (id : ScopeId) : List ScopeId :=
  match h.outer? id with
  | none => [id]
  | some o => if o < id then id :: h.chain o else [id]
termination_by id

/-- The value of a name as seen from a scope. -/
def get? (h : Heap) (id : ScopeId) (name : String) : Option Value :=
  (h.chain id).findSome? fun i => Dict.get? (h.bindings i) name

/-- A scope in words: the names it binds, in order, and whether it lies inside another. -/
def describe (h : Heap) (id : ScopeId) : String :=
  let names := Dict.names (Dict.sorted (h.bindings id))
  let outer := if (h.outer? id).isSome then "True" else "False"
  "<Environment [" ++ ", ".intercalate names ++ "] outer=" ++ outer ++ ">"

end Heap

/-- What is said of a name that no scope of a chain binds. -/
def unknownName (name : String) : String := "unknown name '" ++ name ++ "'"

end ExprScript
