import Orchestration.Entries

/-! # Property schemas

The declared types of a resource's properties.
-/

set_option autoImplicit false

namespace Orchestration

/-- The declared type of one property.  A list may name the type of its elements and a map the types
of its keys. -/
inductive PropertyType where
  | string
  | integer
  | number
  | boolean
  | list (element : Option PropertyType)
  | map (schema : Option (List (String × PropertyType)))

abbrev Schema : Type := Entries PropertyType

namespace PropertyType

/-- The schema below a property: that of a map, or that of the map elements of a list. -/
def nested? : PropertyType → Option Schema
  | .map schema => schema
  | .list (some element) => nested? element
  | _ => none

def isList : PropertyType → Bool
  | .list _ => true
  | _ => false

def isMap : PropertyType → Bool
  | .map _ => true
  | _ => false

end PropertyType

namespace Schema

def child? (schema : Schema) (name : String) : Option Schema :=
  (Entries.get? schema name).bind PropertyType.nested?

end Schema

end Orchestration
