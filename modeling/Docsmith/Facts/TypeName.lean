import Docsmith.Text

/-! # Names in types

A compiler writes qualifiers, pointers, arrays and template arguments around a name, which links a
field to a record. -/

namespace Docsmith.Facts

def qualifiers : List String := ["std::", "const ", "struct "]

/-- Without qualifiers, without what follows the first bracket, and without the marks of pointers
and references. -/
def typeName (t : String) : String :=
  let t := qualifiers.foldl (fun t word => Text.replace word "" t) (Text.strip t)
  let t := Text.before "(" (Text.before "<" (Text.before "[" t))
  Text.strip (Text.replace "&" "" (Text.replace "*" "" t))

end Docsmith.Facts
