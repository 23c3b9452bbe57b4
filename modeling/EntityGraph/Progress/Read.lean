import EntityGraph.Progress.Report
import EntityGraph.Json.Fields
import EntityGraph.Json.Document
import EntityGraph.Json.Typed
/-! Reading progress reports from JSON, as text or as a value. A report is
an object with the optional fields `Done`, `Stage`, `Current` and `Total`
(others are ignored, a field given twice is an error), or an array of
those fields in that order. -/

namespace EntityGraph.Progress

open Json Decode

/-- The report fields of an array after its opening bracket. -/
def reportItems : Reader Report := fun s =>
  (optionalItem true false readBool s).next fun done =>
  fun s1 => (optionalItem false "" readString s1).next fun stage =>
  fun s2 => (optionalItem false 0 readU64 s2).next fun current =>
  fun s3 => (optionalItem false 0 readU64 s3).next fun total =>
  fun s4 => .ok ({ done, stage, current, total }, Rest.refl s4)

/-- The report fields of an object after its opening brace. -/
def reportMembers : Reader Report := fun s =>
  let member : MemberReader (Option Bool × Option String × Option UInt64 × Option UInt64) :=
    fun (d, st, c, t) key =>
      if key = "Done" then fun r =>
        (fieldOnce "Done" d readBool r).map fun (v, q) => ((some v, st, c, t), q)
      else if key = "Stage" then fun r =>
        (fieldOnce "Stage" st readString r).map fun (v, q) => ((d, some v, c, t), q)
      else if key = "Current" then fun r =>
        (fieldOnce "Current" c readU64 r).map fun (v, q) => ((d, st, some v, t), q)
      else if key = "Total" then fun r =>
        (fieldOnce "Total" t readU64 r).map fun (v, q) => ((d, st, c, some v), q)
      else skipMember (d, st, c, t)
  (members member (none, none, none, none) s).map fun ((d, st, c, t), q) =>
    ({ done := d.getD false, stage := st.getD "", current := c.getD 0, total := t.getD 0 }, q)

/-- Reads a report. -/
def readReport (depth : Nat) : Reader Report :=
  readBracketed depth "struct Progress" (some fun _ => reportItems) (some fun _ => reportMembers)

/-- The report a whole JSON text holds, or the message saying why. -/
def Report.ofJsonText (text : String) : Except String Report :=
  readText readReport text

/-- The report a JSON value holds. -/
def Report.ofJson (v : Json) : Except Mismatch Report :=
  match v with
  | .obj ms => do
    checkMembers ms [("Current", reads asU64), ("Done", reads asBool), ("Stage", reads asString),
      ("Total", reads asU64)]
    let done ← optionalField ms "Done" false asBool
    let stage ← optionalField ms "Stage" "" asString
    let current ← optionalField ms "Current" 0 asU64
    let total ← optionalField ms "Total" 0 asU64
    pure { done, stage, current, total }
  | .arr items => do
    let done ← Json.itemOr items 0 false asBool
    let stage ← Json.itemOr items 1 "" asString
    let current ← Json.itemOr items 2 0 asU64
    let total ← Json.itemOr items 3 0 asU64
    noExtraItems items 4
    pure { done, stage, current, total }
  | other => .error (.invalidType (found other) "struct Progress")

end EntityGraph.Progress
