import EntityGraph.Widget.RowTable

/-! # The display order of a row table

Every request leaves the display order a permutation of the one before
(`order_step_perm`), so from a fresh table the order always lists each row
exactly once and every index in it is a row's. Bringing an IRI to the front
sorts that permutation by the key (the row does not mention the IRI, the
row's index); the keys of distinct rows differ, so there is one list sorted
by them and the result does not depend on the order before: the rows that
mention the IRI in ascending order, then the others in ascending order.
Resetting the order sorts by index and gives back `0, 1, …`. The main
theorem is `order_spec`.
-/

namespace EntityGraph.Widget

namespace RowTable

/-! ## Bringing rows to the front -/

section FrontFirst

variable (m : Nat → Bool)

theorem frontFirst_trans (i j k : Nat) :
    frontFirst m i j = true → frontFirst m j k = true → frontFirst m i k = true := by
  cases hi : m i <;> cases hj : m j <;> cases hk : m k <;> simp [frontFirst, hi, hj, hk] <;> omega

theorem frontFirst_total (i j : Nat) : (frontFirst m i j || frontFirst m j i) = true := by
  cases hi : m i <;> cases hj : m j <;> simp [frontFirst, hi, hj] <;> omega

theorem frontFirst_antisymm (i j : Nat) :
    frontFirst m i j = true → frontFirst m j i = true → i = j := by
  cases hi : m i <;> cases hj : m j <;> simp [frontFirst, hi, hj] <;> omega

/-- The rows passing the test and then the others, each in ascending order,
are sorted by the key. -/
theorem pairwise_frontFirst_filter (n : Nat) :
    ((List.range n).filter m ++ (List.range n).filter (fun i => !m i)).Pairwise
      (fun i j => frontFirst m i j = true) := by
  have hasc : ∀ b : Bool, ((List.range n).filter (fun i => m i == b)).Pairwise
      (fun i j => frontFirst m i j = true) := by
    intro b
    refine List.pairwise_filter.mpr (List.pairwise_lt_range.imp fun hij hi hj => ?_)
    simp only [beq_iff_eq] at hi hj
    simp [frontFirst, hi, hj]
    omega
  refine List.pairwise_append.mpr ⟨?_, ?_, ?_⟩
  · simpa using hasc true
  · simpa using hasc false
  · intro i hi j hj
    simp only [List.mem_filter, Bool.not_eq_eq_eq_not, Bool.not_true] at hi hj
    simp [frontFirst, hi.2, hj.2]

end FrontFirst

/-- On a table that shows each row once, bringing an IRI to the front gives
the rows that mention it in ascending order and then the others in
ascending order, whatever the order was. -/
theorem order_bringToFront {t : RowTable} (h : t.order.Perm (List.range t.size)) (uri : String) :
    (t.bringToFront uri).order =
      (List.range t.size).filter (t.mentions uri) ++
        (List.range t.size).filter (fun i => !t.mentions uri i) := by
  have hsorted := List.pairwise_mergeSort (frontFirst_trans (t.mentions uri))
    (frontFirst_total (t.mentions uri)) t.order
  have hperm : (t.bringToFront uri).order.Perm
      ((List.range t.size).filter (t.mentions uri) ++
        (List.range t.size).filter (fun i => !t.mentions uri i)) :=
    ((List.mergeSort_perm _ _).trans h).trans (List.filter_append_perm _ _).symm
  exact List.Perm.eq_of_pairwise (fun i j _ _ => frontFirst_antisymm _ i j) hsorted
    (pairwise_frontFirst_filter _ t.size) hperm

/-- On a table that shows each row once, resetting the order shows the rows
in row order. -/
theorem order_resetOrder {t : RowTable} (h : t.order.Perm (List.range t.size)) :
    t.resetOrder.order = List.range t.size := by
  have htrans : ∀ i j k : Nat, decide (i ≤ j) = true → decide (j ≤ k) = true →
      decide (i ≤ k) = true := by
    intro i j k hij hjk
    simp only [decide_eq_true_eq] at *
    omega
  have htotal : ∀ i j : Nat, (decide (i ≤ j) || decide (j ≤ i)) = true := by
    intro i j
    simp only [Bool.or_eq_true, decide_eq_true_eq]
    omega
  refine List.Perm.eq_of_pairwise (fun i j _ _ hij hji => ?_) (List.pairwise_mergeSort htrans htotal _)
    ?_ ((List.mergeSort_perm _ _).trans h)
  · simp only [decide_eq_true_eq] at hij hji
    omega
  · exact List.pairwise_le_range.imp fun hij => by simpa using hij

/-! ## Every request keeps a permutation -/

/-- A request shows the same rows, perhaps in another order. -/
theorem order_step_perm (t : RowTable) (op : TableOp) : (t.step op).1.order.Perm t.order := by
  cases op with
  | toggleHighlight uri => simp [step]
  | colorOf uri => exact List.Perm.refl _
  | resetColors => exact List.Perm.refl _
  | bringToFront uri => exact order_bringToFront_perm t uri
  | resetOrder => exact order_resetOrder_perm t
  | size => exact List.Perm.refl _
  | order => exact List.Perm.refl _

theorem order_run_perm (t : RowTable) (ops : List TableOp) : (t.run ops).order.Perm t.order := by
  induction ops generalizing t with
  | nil => exact List.Perm.refl _
  | cons op ops ih => exact (ih _).trans (order_step_perm t op)

@[simp] theorem size_run (t : RowTable) (ops : List TableOp) : (t.run ops).size = t.size := by
  simp [size]

@[simp] theorem size_ofRows (rows : List (List String)) : (ofRows rows).size = rows.length := rfl

/-! ## The order of a served table -/

/-- What the display order of a table of rows `rows` satisfies, and what
the requests that touch it do. -/
structure OrderSpec (rows : List (List String)) (t : RowTable) : Prop where
  /-- The table keeps its rows. -/
  rows_eq : t.rows = rows
  /-- The order lists every row exactly once. -/
  perm : t.order.Perm (List.range rows.length)
  /-- Every index in the order is a row's. -/
  lt_length : ∀ i ∈ t.order, i < rows.length
  /-- Bringing an IRI to the front shows the rows that contain it in
  ascending order, then the others in ascending order. -/
  bringToFront : ∀ uri, (t.step (.bringToFront uri)).1.order =
    (List.range rows.length).filter (fun i => uri ∈ rows.getD i []) ++
      (List.range rows.length).filter (fun i => uri ∉ rows.getD i [])
  /-- Resetting the order shows the rows in row order. -/
  resetOrder : (t.step .resetOrder).1.order = List.range rows.length
  /-- The highlight requests leave the order as it is. -/
  highlight : ∀ uri, (t.step (.toggleHighlight uri)).1.order = t.order ∧
    (t.step (.colorOf uri)).1.order = t.order ∧ (t.step .resetColors).1.order = t.order

/-- A row is mentioned when the IRI is one of its entries. -/
theorem mentions_eq (t : RowTable) (uri : String) :
    t.mentions uri = fun i => decide (uri ∈ t.rows.getD i []) := by
  funext i
  simp [mentions]

/-- A table that shows each of its rows once satisfies the whole order
specification. -/
theorem OrderSpec.of_perm {rows : List (List String)} {t : RowTable} (hrows : t.rows = rows)
    (h : t.order.Perm (List.range rows.length)) : OrderSpec rows t := by
  have hsize : t.size = rows.length := by rw [size, hrows]
  have hperm : t.order.Perm (List.range t.size) := hsize ▸ h
  refine ⟨hrows, h, fun i hi => List.mem_range.mp (h.subset hi), fun uri => ?_, ?_,
    fun uri => ⟨by simp [step], rfl, rfl⟩⟩
  · have hfront := order_bringToFront hperm uri
    simp only [mentions_eq, hrows, hsize] at hfront
    simpa [step] using hfront
  · simpa [step, hsize] using order_resetOrder hperm

/-- The display order of a table made from any rows and then served any
requests. -/
theorem order_spec (rows : List (List String)) (ops : List TableOp) :
    OrderSpec rows ((ofRows rows).run ops) :=
  OrderSpec.of_perm (by simp [ofRows]) (order_run_perm (ofRows rows) ops)

end RowTable

end EntityGraph.Widget
