/-! Breaking a label into lines of at most a given number of characters:
the text is cut into pieces of that many characters (the last may be
shorter), joined by line feeds. Width zero leaves the text whole. -/

namespace EntityGraph.Text

/-- A list cut into pieces of `width` items, the last one possibly shorter;
`width` must be positive. -/
def chunks (width : Nat) (h : 0 < width) : List α → List (List α)
  | [] => []
  | x :: xs =>
    (x :: xs).take width :: chunks width h ((x :: xs).drop width)
termination_by xs => xs.length
decreasing_by simp only [List.length_drop, List.length_cons]; omega

/-- A text cut into lines of `width` characters. -/
def wrap (text : String) (width : Nat) : String :=
  if h : 0 < width then
    "\n".intercalate ((chunks width h text.toList).map String.ofList)
  else text

end EntityGraph.Text
