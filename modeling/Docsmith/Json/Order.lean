import Docsmith.Json.Basic

/-! # An order of JSON values

Texts by their characters, false before true, arrays item by item, null first. -/

namespace Docsmith.Json

mutual

def compareTo : Json → Json → Ordering
  | .str a, .str b => compareOfLessAndEq a b
  | .bool a, .bool b => compare a.toNat b.toNat
  | .null, .null => .eq
  | .null, _ => .lt
  | _, .null => .gt
  | .arr as, .arr bs => compareAll as bs
  | _, _ => .eq

def compareAll : List Json → List Json → Ordering
  | [], [] => .eq
  | [], _ => .lt
  | _, [] => .gt
  | a :: as, b :: bs => (compareTo a b).then (compareAll as bs)

end

def sorted (vs : List Json) : Json :=
  .arr (vs.mergeSort fun a b => compareTo a b != .gt)

end Docsmith.Json
