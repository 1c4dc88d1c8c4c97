import StaticStyle.Value.Basic

namespace StaticStyle.Theme

/-- The first theme with the values of the second put over it. Objects under the same key are merged;
any other value takes the place of the one below. -/
def merge (below : Fields Value) : List (Text × Value) → Fields Value
  | [] => below
  | (key, value) :: rest =>
    let merged := match below.get? key, value with
      | some (.object inner), .object above => .object (merge inner above)
      | _, other => other
    merge (below.put key merged) rest

end StaticStyle.Theme
