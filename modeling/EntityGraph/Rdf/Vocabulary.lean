/-! IRIs of the RDF vocabularies the graphs always know. -/

namespace EntityGraph.Rdf

/-- The namespace of the RDF vocabulary. -/
def rdfNamespace : String := "http://www.w3.org/1999/02/22-rdf-syntax-ns#"

/-- The namespace of the XML Schema datatypes. -/
def xsdNamespace : String := "http://www.w3.org/2001/XMLSchema#"

end EntityGraph.Rdf
