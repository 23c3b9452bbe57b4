import EntityGraph.Failure
import EntityGraph.Json.Basic
/-! Handing a document to an embedded viewer frame. The page element names
the document's data, the frame's URL and a file name in `data-`
attributes; the payload is sent once, in answer to the first message from
the frame that is the string `tipsy:ready`. -/

namespace EntityGraph.Widget

/-- What is sent to the frame. -/
structure Payload where
  filename : String
  mediaType : String
  data : String
  deriving DecidableEq, Repr

/-- A frame waiting for its ready message, with the payload until it is
sent. -/
structure Handoff where
  url : String
  payload : Option Payload

namespace Handoff

/-- The frame set up from an element's `data-` attributes `data`, `url` and
`filename`, looked up in that order. -/
def ofDataset (dataset : List (String × String)) : Except Failure Handoff := do
  let get (key : String) : Except Failure String :=
    match dataset.lookup key with
    | some v => .ok v
    | none => .error (.missingAttribute key)
  let data ← get "data"
  let url ← get "url"
  let filename ← get "filename"
  pure ⟨url, some ⟨filename, "application/xml", data⟩⟩

/-- Whether the payload has been sent. -/
def answered (h : Handoff) : Bool := h.payload.isNone

/-- Handles a message: the first ready message from the frame takes the
payload. -/
def onMessage (h : Handoff) (fromFrame : Bool) (message : Json) : Handoff × Option Payload :=
  match fromFrame, message with
  | true, .str "tipsy:ready" => ({ h with payload := none }, h.payload)
  | _, _ => (h, none)

end Handoff

end EntityGraph.Widget
