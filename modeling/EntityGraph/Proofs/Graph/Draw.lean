import Mathlib
import EntityGraph.Graph.Build
import EntityGraph.Proofs.Prefix.Choose

/-! # The shape of a drawing

A drawing lists the resources as ellipse nodes and then one box node per
literal triple, named `_:N`. The numbers come from a search that moves up
from the last number taken and skips names already used by resources; its
fuel of `used.length + 1` steps always suffices, since that many numbers in
a row have that many distinct names (`freshLiteralNumber_spec`). The literal
triples are drawn by a fold whose invariant, `LiteralsDrawn`, says that the
numbers taken so far are the least free ones; from it the main theorem
`draw_graph` reads off the nodes and edges, that node names are distinct,
and that every edge joins two nodes.
-/

namespace EntityGraph

/-! ## Resources -/

theorem distinct_append_singleton (xs : List String) (x : String) :
    distinct (xs ++ [x]) = if x ∈ distinct xs then distinct xs else distinct xs ++ [x] := by
  simp only [distinct, List.foldl_append, List.foldl_cons, List.foldl_nil, List.contains_iff_mem]

/-- `distinct` keeps each item where it first occurs. -/
theorem distinct_eq_eraseDups (xs : List String) : distinct xs = xs.eraseDups := by
  induction xs using List.reverseRecOn with
  | nil => rfl
  | append_singleton xs x ih =>
    rw [distinct_append_singleton, ih, PrefixMap.eraseDups_append_singleton]
    by_cases hx : x ∈ xs <;> simp [hx, List.mem_eraseDups]

/-! ## Literal numbers -/

theorem literalId_injective : Function.Injective literalId := by
  intro i j h
  have hl := congrArg String.toList h
  simp only [literalId, String.toList_append, Nat.toString_eq_repr, Nat.toList_repr] at hl
  have hd := List.append_cancel_left hl
  have hnum := congrArg (fun ds => Nat.ofDigitChars 10 ds 0) hd
  simpa using hnum

/-- The search for a free number moves up from `start`, passes only used
names, and stops at a free one unless its fuel runs out. -/
theorem seek_spec (used : List String) :
    ∀ fuel start, start ≤ freshLiteralNumber.seek used fuel start ∧
      (∀ n, start ≤ n → n < freshLiteralNumber.seek used fuel start → literalId n ∈ used) ∧
      (literalId (freshLiteralNumber.seek used fuel start) ∉ used ∨
        freshLiteralNumber.seek used fuel start = start + fuel) := by
  intro fuel
  induction fuel with
  | zero =>
    intro start
    refine ⟨le_refl _, fun n h1 h2 => ?_, by simp [freshLiteralNumber.seek]⟩
    simp only [freshLiteralNumber.seek] at h2
    omega
  | succ fuel ih =>
    intro start
    simp only [freshLiteralNumber.seek]
    split
    · rename_i hused
      obtain ⟨hle, hbelow, hstop⟩ := ih (start + 1)
      refine ⟨by omega, fun n hn hlt => ?_, hstop.imp_right fun h => by omega⟩
      rcases Nat.eq_or_lt_of_le hn with rfl | hn
      · simpa using hused
      · exact hbelow n hn hlt
    · rename_i hfree
      exact ⟨le_refl _, fun n hn hlt => by omega, Or.inl (by simpa using hfree)⟩

/-- Among `used.length + 1` numbers in a row one has a name not in `used`:
their names are distinct. -/
theorem exists_free_literalId (used : List String) (start : Nat) :
    ∃ n, start ≤ n ∧ n < start + (used.length + 1) ∧ literalId n ∉ used := by
  by_contra hnone
  have hall : ∀ n, start ≤ n → n < start + (used.length + 1) → literalId n ∈ used :=
    fun n h1 h2 => by
      by_contra hn
      exact hnone ⟨n, h1, h2, hn⟩
  have hsub : (List.range' start (used.length + 1)).map literalId ⊆ used := by
    intro x hx
    obtain ⟨n, hn, rfl⟩ := List.mem_map.mp hx
    obtain ⟨h1, h2⟩ := List.mem_range'_1.mp hn
    exact hall n h1 h2
  have hnd : ((List.range' start (used.length + 1)).map literalId).Nodup :=
    (List.nodup_range' ..).map literalId_injective
  have hlen := (hnd.subperm hsub).length_le
  simp at hlen

/-- The number a literal triple takes: the least one from `start` on whose
name is not used. -/
theorem freshLiteralNumber_spec (used : List String) (start : Nat) :
    start ≤ freshLiteralNumber used start ∧ literalId (freshLiteralNumber used start) ∉ used ∧
      ∀ n, start ≤ n → n < freshLiteralNumber used start → literalId n ∈ used := by
  obtain ⟨hle, hbelow, hstop⟩ := seek_spec used (used.length + 1) start
  refine ⟨hle, ?_, hbelow⟩
  rcases hstop with hfree | hend
  · exact hfree
  · -- running out of fuel would make every name in the window used
    obtain ⟨n, h1, h2, hn⟩ := exists_free_literalId used start
    exact absurd (hbelow n h1 (by omega)) hn

/-! ## Drawing the literal triples -/

/-- `ns` are positive numbers in increasing order whose literal names are
not in `used`, and every other such number is above all of them: they are
the least such numbers. -/
structure LeastFree (used : List String) (ns : List Nat) : Prop where
  increasing : ns.Pairwise (· < ·)
  free : ∀ n ∈ ns, 0 < n ∧ literalId n ∉ used
  least : ∀ n, 0 < n → literalId n ∉ used → n ∉ ns → ∀ k ∈ ns, k < n

/-- The state after drawing the literal triples `ls` from the empty one:
they took the numbers `ns`, in increasing order and with free names; the
state holds the last number taken (`0` before any), every free positive
number not taken lies above it, and the state's nodes and edges are those
of `ls` under their numbers. -/
structure LiteralsDrawn (s : DrawSettings) (m : PrefixMap) (used : List String)
    (ls : List LiteralTriple) (st : Nat × List Node × List Edge) (ns : List Nat) : Prop where
  length : ns.length = ls.length
  increasing : ns.Pairwise (· < ·)
  free : ∀ n ∈ ns, 0 < n ∧ literalId n ∉ used
  le_last : ∀ k ∈ ns, k ≤ st.1
  last_lt : ∀ n, 0 < n → literalId n ∉ used → n ∉ ns → st.1 < n
  nodes : st.2.1 = (ls.zip ns).map fun e => literalNode s m e.1 e.2
  edges : st.2.2 = (ls.zip ns).map fun e => literalEdge m e.1 e.2

theorem LiteralsDrawn.leastFree {s : DrawSettings} {m : PrefixMap} {used : List String}
    {ls : List LiteralTriple} {st : Nat × List Node × List Edge} {ns : List Nat}
    (h : LiteralsDrawn s m used ls st ns) : LeastFree used ns :=
  ⟨h.increasing, h.free, fun n hn hfree hnot k hk =>
    Nat.lt_of_le_of_lt (h.le_last k hk) (h.last_lt n hn hfree hnot)⟩

/-- One more literal triple takes the least free number above the last one,
which keeps every part of the invariant. -/
theorem LiteralsDrawn.addLiteral {s : DrawSettings} {m : PrefixMap} {used : List String}
    {ls : List LiteralTriple} {st : Nat × List Node × List Edge} {ns : List Nat}
    (h : LiteralsDrawn s m used ls st ns) (l : LiteralTriple) :
    LiteralsDrawn s m used (ls ++ [l]) (EntityGraph.addLiteral s m used st l)
      (ns ++ [freshLiteralNumber used (st.1 + 1)]) := by
  obtain ⟨last, nodes, edges⟩ := st
  dsimp only at h ⊢
  obtain ⟨hge, hfree, hbelow⟩ := freshLiteralNumber_spec used (last + 1)
  have hzip : (ls ++ [l]).zip (ns ++ [freshLiteralNumber used (last + 1)]) =
      ls.zip ns ++ [(l, freshLiteralNumber used (last + 1))] := by
    rw [List.zip_append h.length.symm]
    rfl
  refine ⟨by simp [h.length], ?_, ?_, ?_, ?_, ?_, ?_⟩
  · rw [List.pairwise_append]
    refine ⟨h.increasing, List.pairwise_singleton _ _, ?_⟩
    intro k hk n hn
    rw [List.mem_singleton.mp hn]
    have := h.le_last k hk
    omega
  · intro n hn
    rcases List.mem_append.mp hn with hn | hn
    · exact h.free n hn
    · rw [List.mem_singleton.mp hn]
      exact ⟨by omega, hfree⟩
  · intro k hk
    rcases List.mem_append.mp hk with hk | hk
    · have := h.le_last k hk
      simp only [EntityGraph.addLiteral]
      omega
    · simp [EntityGraph.addLiteral, List.mem_singleton.mp hk]
  · -- a free number not taken is above the last one, and differs from the new one
    intro n hn hnfree hnot
    have hlast := h.last_lt n hn hnfree fun hmem => hnot (List.mem_append_left _ hmem)
    have hne : n ≠ freshLiteralNumber used (last + 1) := fun he => hnot (by simp [he])
    simp only [EntityGraph.addLiteral]
    by_contra hle
    exact hnfree (hbelow n (by omega) (by omega))
  · have hnodes : nodes = (ls.zip ns).map fun e => literalNode s m e.1 e.2 := h.nodes
    simp [EntityGraph.addLiteral, hnodes, hzip]
  · have hedges : edges = (ls.zip ns).map fun e => literalEdge m e.1 e.2 := h.edges
    simp [EntityGraph.addLiteral, hedges, hzip]

/-- Drawing the literal triples one by one keeps the invariant, from the
empty state to the last triple. -/
theorem literalsDrawn_foldl (s : DrawSettings) (m : PrefixMap) (used : List String)
    (ls : List LiteralTriple) :
    ∃ ns, LiteralsDrawn s m used ls (ls.foldl (addLiteral s m used) (0, [], [])) ns := by
  induction ls using List.reverseRecOn with
  | nil =>
    refine ⟨[], ⟨rfl, List.Pairwise.nil, by simp, by simp, ?_, rfl, rfl⟩⟩
    intro n hn _ _
    exact hn
  | append_singleton ls l ih =>
    obtain ⟨ns, hns⟩ := ih
    rw [List.foldl_append, List.foldl_cons, List.foldl_nil]
    exact ⟨_, hns.addLiteral l⟩

/-! ## The drawing -/

theorem draw_prefixes (s : DrawSettings) (d : Statements) :
    (d.draw s).prefixes = d.prefixes s :=
  rfl

theorem draw_nodes (s : DrawSettings) (d : Statements) :
    (d.draw s).graph.nodes = d.resources.map (resourceNode (d.prefixes s)) ++
      (d.literals.foldl (addLiteral s (d.prefixes s) d.resources) (0, [], [])).2.1 :=
  rfl

theorem draw_edges (s : DrawSettings) (d : Statements) :
    (d.draw s).graph.edges = d.triples.map (linkEdge (d.prefixes s)) ++
      (d.literals.foldl (addLiteral s (d.prefixes s) d.resources) (0, [], [])).2.2 :=
  rfl

/-- The resources are the subjects and objects of the triples, in turn, then
the subjects of the literal triples, each where it first occurs. -/
theorem resources_eq (d : Statements) :
    d.resources = (d.triples.flatMap (fun t => [t.subject, t.object]) ++
      d.literals.map (·.subject)).eraseDups := by
  rw [Statements.resources, distinct_eq_eraseDups]

theorem triple_ends_mem_resources {d : Statements} {t : Triple} (ht : t ∈ d.triples) :
    t.subject ∈ d.resources ∧ t.object ∈ d.resources := by
  rw [resources_eq, List.mem_eraseDups, List.mem_eraseDups]
  constructor <;> exact List.mem_append_left _ (List.mem_flatMap.mpr ⟨t, ht, by simp⟩)

theorem literal_subject_mem_resources {d : Statements} {l : LiteralTriple}
    (hl : l ∈ d.literals) : l.subject ∈ d.resources := by
  rw [resources_eq, List.mem_eraseDups]
  exact List.mem_append_right _ (List.mem_map_of_mem hl)

/-- Resources are distinct, and so are the names of least free numbers,
which no resource has. -/
theorem LeastFree.nodup_names {d : Statements} {ns : List Nat} (h : LeastFree d.resources ns) :
    (d.resources ++ ns.map literalId).Nodup := by
  rw [List.nodup_append]
  refine ⟨?_, List.Nodup.map literalId_injective (h.increasing.imp Nat.ne_of_lt), ?_⟩
  · rw [resources_eq]
    exact PrefixMap.nodup_eraseDups _
  · intro a ha b hb hab
    obtain ⟨n, hn, rfl⟩ := List.mem_map.mp hb
    exact (h.free n hn).2 (hab ▸ ha)

/-- Every edge runs from a resource to a resource or to the name of a
literal triple's number. -/
theorem edge_ends_mem {d : Statements} {m : PrefixMap} {ns : List Nat} {e : Edge}
    (he : e ∈ d.triples.map (linkEdge m) ++ (d.literals.zip ns).map fun x => literalEdge m x.1 x.2) :
    e.tail ∈ d.resources ++ ns.map literalId ∧ e.head ∈ d.resources ++ ns.map literalId := by
  rcases List.mem_append.mp he with he | he
  · obtain ⟨t, ht, rfl⟩ := List.mem_map.mp he
    obtain ⟨hs, ho⟩ := triple_ends_mem_resources ht
    exact ⟨List.mem_append_left _ hs, List.mem_append_left _ ho⟩
  · obtain ⟨⟨l, n⟩, hln, rfl⟩ := List.mem_map.mp he
    exact ⟨List.mem_append_left _ (literal_subject_mem_resources (List.of_mem_zip hln).1),
      List.mem_append_right _ (List.mem_map_of_mem (List.of_mem_zip hln).2)⟩

/-- The names of the nodes: the resources, then the names of the numbers
taken. -/
theorem names_of_literalsDrawn {s : DrawSettings} {m : PrefixMap}
    {ls : List LiteralTriple} {ns : List Nat} (hlen : ns.length = ls.length)
    (resources : List String) :
    (resources.map (resourceNode m) ++ (ls.zip ns).map fun e => literalNode s m e.1 e.2).map
      (·.name) = resources ++ ns.map literalId := by
  have hsnd : (ls.zip ns).map Prod.snd = ns := List.map_snd_zip (by omega)
  simp only [List.map_append, List.map_map]
  congr 1
  · simp [Function.comp_def, resourceNode]
  · conv_rhs => rw [← hsnd, List.map_map]
    simp [Function.comp_def, literalNode]

/-- A drawing: its nodes are the resources, as ellipses in order, then one
orange box per literal triple, named `_:N` by the least positive numbers
whose names are not resources, in increasing order. Its edges are one per
triple and then one per literal triple, from its subject to its box. So all
node names are distinct, there is one edge per statement, and every edge
joins two nodes. -/
theorem draw_graph (s : DrawSettings) (d : Statements) :
    d.resources = (d.triples.flatMap (fun t => [t.subject, t.object]) ++
      d.literals.map (·.subject)).eraseDups ∧
    ∃ ns : List Nat, ns.length = d.literals.length ∧ LeastFree d.resources ns ∧
      (d.draw s).graph.nodes = d.resources.map (resourceNode (d.draw s).prefixes) ++
        (d.literals.zip ns).map (fun e => literalNode s (d.draw s).prefixes e.1 e.2) ∧
      (d.draw s).graph.edges = d.triples.map (linkEdge (d.draw s).prefixes) ++
        (d.literals.zip ns).map (fun e => literalEdge (d.draw s).prefixes e.1 e.2) ∧
      ((d.draw s).graph.nodes.map (·.name)).Nodup ∧
      (d.draw s).graph.edges.length = d.triples.length + d.literals.length ∧
      (d.draw s).graph.isClosed = true := by
  obtain ⟨ns, hdrawn⟩ := literalsDrawn_foldl s (d.prefixes s) d.resources d.literals
  simp only [draw_prefixes]
  have hnodes := draw_nodes s d
  have hedges := draw_edges s d
  rw [hdrawn.nodes] at hnodes
  rw [hdrawn.edges] at hedges
  have hnames := names_of_literalsDrawn (s := s) (m := d.prefixes s) hdrawn.length d.resources
  refine ⟨resources_eq d, ns, hdrawn.length, hdrawn.leastFree, hnodes, hedges, ?_, ?_, ?_⟩
  · rw [hnodes, hnames]
    exact hdrawn.leastFree.nodup_names
  · simp [hedges, hdrawn.length]
  · rw [Graph.isClosed_iff, hnodes, hnames, hedges]
    exact fun e he => edge_ends_mem he

-- a literal node skips the numbers whose names the resources already use
example :
    ((Statements.draw {} ⟨[⟨"_:1", "http://a.org/p", "_:2"⟩],
      [⟨"_:1", "http://a.org/v", .str "x", none⟩]⟩).graph.nodes.map (·.name)) =
      ["_:1", "_:2", "_:3"] := by
  decide

end EntityGraph
