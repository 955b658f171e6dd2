import Testbus.Xml.Traverse

namespace Testbus.Xpath

open Xml

/-- A pointer to an element of a tree, with the node that is there. -/
structure Element where
  position : Position
  node : Node

def Element.children (element : Element) : List Element :=
  element.node.children.zipIdx.map fun (child, i) => ⟨element.position ++ [i], child⟩

/-- `xpath_node_type_t`, without the types that no result has. -/
inductive ResultType
  | element
  | string
  | boolean
  | integer
  deriving DecidableEq

/-- The type and the nodes of an `xpath_result_t`. A boolean result is normalized: it has one node
if it is true and none if it is false. -/
inductive Contents
  | elements (values : List Element)
  | strings (values : List CString)
  | boolean (truth : Bool)
  | integers (values : List Int64)

namespace Contents

def type : Contents → ResultType
  | elements _ => .element
  | strings _ => .string
  | boolean _ => .boolean
  | integers _ => .integer

def count : Contents → Nat
  | elements values => values.length
  | strings values => values.length
  | boolean truth => truth.toNat
  | integers values => values.length

end Contents

/-- The `value` of an `xpath_node_t`. That of a string is `NULL` in what was made from an element
without text. -/
inductive Value
  | element (value : Element)
  | string (value : Option CString)
  | boolean (value : Bool)
  | integer (value : Int64)

/-- The array of nodes of a result. -/
def Contents.nodes : Contents → List Value
  | elements values => values.map .element
  | strings values => values.map fun value => .string (some value)
  | boolean truth => if truth then [.boolean true] else []
  | integers values => values.map .integer

end Testbus.Xpath
