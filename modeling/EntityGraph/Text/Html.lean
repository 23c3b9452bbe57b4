/-! Escaping text for HTML: the five characters with a meaning in markup
or in attribute values become character references. -/

namespace EntityGraph.Text

/-- The HTML form of one character. -/
def htmlChar (c : Char) : String :=
  if c = '&' then "&amp;"
  else if c = '<' then "&lt;"
  else if c = '>' then "&gt;"
  else if c = '"' then "&quot;"
  else if c = '\'' then "&#39;"
  else c.toString

/-- Text made safe to place in HTML. -/
def escapeHtml (s : String) : String :=
  String.join (s.toList.map htmlChar)

end EntityGraph.Text
