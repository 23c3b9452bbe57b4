import EntityGraph.Page.Scripts
import EntityGraph.Rdf.Read
import EntityGraph.Text.Blank
import EntityGraph.Failure
/-! Loading statements from a text: JSON when, after leading white space,
it starts with `{`; otherwise an HTML page whose graph scripts are read
(each trimmed of white space) and the first one used. -/

namespace EntityGraph.Page

/-- The statements of a JSON text. -/
def readStatements (text : String) : Except Failure Statements :=
  (Statements.ofJsonText text).mapError Failure.json

/-- The statements of every graph script of a page, stopping at the first
that is not valid. -/
def extractGraphs (html : String) : Except Failure (List Statements) :=
  (graphScripts html).mapM fun body => readStatements (Text.trimSpace body)

/-- The statements of a JSON text or of the first graph script of a page. -/
def loadStatements (text : String) : Except Failure Statements := do
  let trimmed := Text.trimStart text
  if trimmed.toList.head? = some '\x7b' then readStatements trimmed
  else
    match ← extractGraphs text with
    | d :: _ => pure d
    | [] => throw .noGraphData

end EntityGraph.Page
