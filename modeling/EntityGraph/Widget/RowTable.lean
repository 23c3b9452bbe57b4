/-! A table of statement rows that a reader can rearrange and mark. Each
row holds the IRIs it mentions. Highlighting an IRI gives it the next color
of a fixed cycle (highlighting it again removes the mark); bringing an IRI
to the front lists the rows that mention it first, each group in row
order. -/

namespace EntityGraph.Widget

/-- The colors highlights cycle through. -/
def highlightColors : List String := ["violet", "blue", "red", "indigo", "green", "orange"]

/-- A table of rows with an order to show them in and highlighted IRIs. -/
structure RowTable where
  rows : List (List String)
  order : List Nat
  highlighted : List (String × String)
  nextColor : Nat

namespace RowTable

/-- A table showing its rows in order, nothing highlighted. -/
def ofRows (rows : List (List String)) : RowTable :=
  ⟨rows, List.range rows.length, [], 0⟩

/-- The number of rows. -/
def size (t : RowTable) : Nat := t.rows.length

/-- The color of a highlighted IRI. -/
def colorOf? (t : RowTable) (uri : String) : Option String := t.highlighted.lookup uri

/-- Highlights an IRI with the next color, or removes its highlight (and
gives no color). -/
def toggleHighlight (t : RowTable) (uri : String) : RowTable × Option String :=
  if (t.colorOf? uri).isSome then
    ({ t with highlighted := t.highlighted.filter (·.1 != uri) }, none)
  else
    let color := highlightColors.getD t.nextColor "violet"
    ({ t with highlighted := t.highlighted ++ [(uri, color)],
              nextColor := (t.nextColor + 1) % highlightColors.length }, some color)

/-- Removes every highlight and starts the colors over. -/
def resetColors (t : RowTable) : RowTable := { t with highlighted := [], nextColor := 0 }

/-- Whether row `i` mentions an IRI. -/
def mentions (t : RowTable) (uri : String) (i : Nat) : Bool :=
  (t.rows.getD i []).contains uri

/-- The order rows are brought to the front in, for a test `m` of row
indices: by the key (`m i` fails, `i`), so rows passing the test come first
and rows alike keep row order. -/
def frontFirst (m : Nat → Bool) (i j : Nat) : Bool :=
  (m i && !m j) || (m i == m j && i ≤ j)

/-- Shows the rows mentioning an IRI first, each group in row order. -/
def bringToFront (t : RowTable) (uri : String) : RowTable :=
  { t with order := t.order.mergeSort (frontFirst (t.mentions uri)) }

/-- Shows the rows in row order again. -/
def resetOrder (t : RowTable) : RowTable := { t with order := t.order.mergeSort (· ≤ ·) }

end RowTable

/-- A request to a row table. -/
inductive TableOp where
  | toggleHighlight (uri : String)
  | colorOf (uri : String)
  | resetColors
  | bringToFront (uri : String)
  | resetOrder
  | size
  | order
  deriving DecidableEq, Repr

/-- What a row table answers: a color or none to the highlight requests,
the number of rows, the display order, or nothing. -/
inductive TableAnswer where
  | color (c : Option String)
  | size (n : Nat)
  | order (order : List Nat)
  | done
  deriving DecidableEq, Repr

namespace RowTable

/-- Serves one request. -/
def step (t : RowTable) : TableOp → RowTable × TableAnswer
  | .toggleHighlight uri => ((t.toggleHighlight uri).1, .color (t.toggleHighlight uri).2)
  | .colorOf uri => (t, .color (t.colorOf? uri))
  | .resetColors => (t.resetColors, .done)
  | .bringToFront uri => (t.bringToFront uri, .done)
  | .resetOrder => (t.resetOrder, .done)
  | .size => (t, .size t.size)
  | .order => (t, .order t.order)

/-- The table after serving requests in turn. -/
def run (t : RowTable) (ops : List TableOp) : RowTable :=
  ops.foldl (fun t op => (t.step op).1) t

theorem order_bringToFront_perm (t : RowTable) (uri : String) :
    (t.bringToFront uri).order.Perm t.order :=
  List.mergeSort_perm _ _

theorem order_resetOrder_perm (t : RowTable) : t.resetOrder.order.Perm t.order :=
  List.mergeSort_perm _ _

@[simp] theorem order_toggleHighlight (t : RowTable) (uri : String) :
    (t.toggleHighlight uri).1.order = t.order := by
  unfold toggleHighlight
  split <;> rfl

@[simp] theorem order_resetColors (t : RowTable) : t.resetColors.order = t.order := rfl

@[simp] theorem rows_toggleHighlight (t : RowTable) (uri : String) :
    (t.toggleHighlight uri).1.rows = t.rows := by
  unfold toggleHighlight
  split <;> rfl

/-- No request changes the rows. -/
@[simp] theorem rows_step (t : RowTable) (op : TableOp) : (t.step op).1.rows = t.rows := by
  cases op <;> simp [step, resetColors, bringToFront, resetOrder]

@[simp] theorem run_nil (t : RowTable) : t.run [] = t := rfl

@[simp] theorem run_append_singleton (t : RowTable) (ops : List TableOp) (op : TableOp) :
    t.run (ops ++ [op]) = ((t.run ops).step op).1 := by
  simp [run]

@[simp] theorem run_cons (t : RowTable) (op : TableOp) (ops : List TableOp) :
    t.run (op :: ops) = (t.step op).1.run ops := rfl

@[simp] theorem rows_run (t : RowTable) (ops : List TableOp) : (t.run ops).rows = t.rows := by
  induction ops generalizing t with
  | nil => rfl
  | cons op ops ih => simp [ih]

end RowTable

end EntityGraph.Widget
