import DalvikCode.Error

/-!
# Traces

What a lazy traversal yields when it is walked to its end.
-/

namespace DalvikCode

/-- The items of a traversal in order, and the failure that ended it, if one did. -/
structure Trace (α : Type) where
  items : Array α
  failure? : Option DecodeError := none

namespace Trace

/-- All items of a traversal that did not fail, else its failure. -/
def toExcept {α : Type} (t : Trace α) : Except DecodeError (Array α) :=
  match t.failure? with
  | none => .ok t.items
  | some e => .error e

/-- The results of a traversal one by one: its items, then its failure. -/
def results {α : Type} (t : Trace α) : Array (Except DecodeError α) :=
  t.items.map .ok ++ (t.failure?.map .error).toArray

theorem toList_results {α : Type} (t : Trace α) :
    t.results.toList = t.items.toList.map .ok ++ (t.failure?.map .error).toList := by
  rw [results, Array.toList_append, Array.toList_map]
  cases t.failure? <;> rfl

end Trace

end DalvikCode
