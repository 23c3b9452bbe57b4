import EntityGraph.Prefix.Map
import EntityGraph.Text.Html
/-! The legend of a prefix map: an HTML table with a header row and one row
per prefix, alias first, in the map's order. -/

namespace EntityGraph.PrefixMap

/-- The legend row of one prefix. -/
def legendRow (entry : String × String) : String :=
  "<tr><td>" ++ Text.escapeHtml entry.2 ++ "</td><td>" ++ Text.escapeHtml entry.1 ++ "</td></tr>\n"

/-- The legend of a prefix map as an HTML table. -/
def legend (m : PrefixMap) : String :=
  "<table>\n<tr><th>NS</th><th>URI</th></tr>\n" ++ String.join (m.entries.map legendRow) ++ "</table>\n"

end EntityGraph.PrefixMap
