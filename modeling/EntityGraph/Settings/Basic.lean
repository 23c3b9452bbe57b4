import EntityGraph.Graph.Build
/-! The settings shared by drawing, rendering and progress polling. Every
setting has a default, so no setting needs to be given. -/

namespace EntityGraph

/-- The settings: how drawings shorten and wrap names and show literals,
and how often and where progress is asked for. -/
structure Settings where
  /-- Characters that end a namespace prefix. -/
  separators : String := "/#"
  /-- The longest alias a generated prefix may get. -/
  maxAliasLen : Nat := 30
  /-- The width literal labels wrap at; `0` keeps them on one line. -/
  wrapWidth : Nat := 30
  literalStyle : LiteralStyle := .annotated
  /-- Milliseconds between two progress requests. -/
  pollIntervalMs : Nat := 500
  /-- Where progress is asked for, under the server's address. -/
  progressEndpoint : String := "/api/v1/progress"
  deriving Repr

/-- The names of the settings, in the order they are listed. -/
def Settings.names : List String :=
  ["separators", "max_alias_len", "wrap_width", "literal_style", "poll_interval_ms",
    "progress_endpoint"]

/-- The drawing choices the settings make. -/
def Settings.draw (s : Settings) : DrawSettings :=
  { separators := s.separators, maxAliasLen := s.maxAliasLen, wrapWidth := s.wrapWidth,
    literalStyle := s.literalStyle }

end EntityGraph
