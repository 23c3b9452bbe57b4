/-! Unicode white space (the `White_Space` property), as used when trimming
text read from a page. -/

namespace EntityGraph.Text

/-- A character with the Unicode `White_Space` property. -/
def isUnicodeSpace (c : Char) : Bool :=
  let n := c.toNat
  (0x09 ≤ n && n ≤ 0x0D) || n == 0x20 || n == 0x85 || n == 0xA0 || n == 0x1680 ||
    (0x2000 ≤ n && n ≤ 0x200A) || n == 0x2028 || n == 0x2029 || n == 0x202F ||
    n == 0x205F || n == 0x3000

/-- A text without its leading white space. -/
def trimStart (s : String) : String :=
  String.ofList (s.toList.dropWhile isUnicodeSpace)

/-- A text without leading and trailing white space. -/
def trimSpace (s : String) : String :=
  String.ofList ((s.toList.dropWhile isUnicodeSpace).reverse.dropWhile isUnicodeSpace).reverse

end EntityGraph.Text
