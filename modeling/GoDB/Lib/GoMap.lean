import Mathlib.Data.List.AList

namespace GoDB.Lib

/-- A Go map. Reading it is `lookup`, and `range` visits its entries in an order
that Go leaves open. -/
abbrev GoMap (κ ν : Type) := AList (fun _ : κ => ν)

namespace GoMap
variable {κ ν : Type} [DecidableEq κ]

/-- Write a value back, or delete the key when the value has become empty. -/
def putBack (map : GoMap κ ν) (key : κ) (value : ν) (empty : Bool) : GoMap κ ν :=
  if empty then map.erase key else map.insert key value

theorem lookup_putBack (map : GoMap κ ν) (key key' : κ) (value zero : ν) (empty : Bool)
    (zeroed : empty = true → value = zero) :
    ((map.putBack key value empty).lookup key').getD zero =
      if key' = key then value else (map.lookup key').getD zero := by
  unfold putBack
  by_cases same : key' = key
  · subst key'
    cases empty with
    | true => simp [zeroed rfl]
    | false => simp
  · cases empty with
    | true => simp [same, AList.lookup_erase_ne]
    | false => simp [same, AList.lookup_insert_ne]

end GoMap
end GoDB.Lib
