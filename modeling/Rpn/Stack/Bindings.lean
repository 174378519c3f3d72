/-!
# Bindings of variables

A calculator's variables are a partial function from names to numbers, and
`Bindings` is that function. Two bindings under which every name has the
same value are therefore the same, however often and in whatever order
their variables were set: nothing about a store but its effect is kept.
-/

namespace Rpn

/-- **The values of the variables**, for the names that have one. -/
@[ext] structure Bindings where
  /-- The value of a variable, or `none` if it is not set. -/
  get? : String → Option Float

namespace Bindings

/-- No variable is set. -/
def empty : Bindings := ⟨fun _ => none⟩

/-- **Sets one variable** and leaves every other as it was. -/
def set (bindings : Bindings) (name : String) (value : Float) : Bindings :=
  ⟨fun other => if other = name then some value else bindings.get? other⟩

@[simp] theorem get?_empty (name : String) : empty.get? name = none := rfl

@[simp] theorem get?_set_self (bindings : Bindings) (name : String) (value : Float) :
    (bindings.set name value).get? name = some value := by
  simp [set]

theorem get?_set_of_ne (bindings : Bindings) {name other : String} (value : Float)
    (h : other ≠ name) : (bindings.set name value).get? other = bindings.get? other := by
  simp [set, h]

/-- Setting a variable to the value it has changes nothing. -/
theorem set_of_get? {bindings : Bindings} {name : String} {value : Float}
    (h : bindings.get? name = some value) : bindings.set name value = bindings := by
  ext other : 2
  by_cases same : other = name
  · subst same; simp [h]
  · exact get?_set_of_ne bindings value same

end Bindings

end Rpn
