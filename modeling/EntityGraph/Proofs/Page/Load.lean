import EntityGraph.Page.Load
/-! Which graph script decides what a page loads as. Every graph script of a
page is read before the first is taken, so the first one's statements are
the result only when every later script reads as well; otherwise the page
fails with the failure of its first script that does not read. -/

namespace EntityGraph.Page

section MapM

variable {α β ε : Type} {f : α → Except ε β}

/-- Reading a list succeeds when every item reads. -/
theorem exists_mapM_eq_ok : ∀ {l : List α}, (∀ x ∈ l, (f x).isOk) → ∃ ys, l.mapM f = .ok ys
  | [], _ => ⟨[], rfl⟩
  | a :: l, h => by
    obtain ⟨ys, hys⟩ := exists_mapM_eq_ok fun x hx => h x (List.mem_cons_of_mem a hx)
    have ha := h a List.mem_cons_self
    cases hfa : f a with
    | error e => simp [hfa, Except.isOk, Except.toBool] at ha
    | ok y => exact ⟨y :: ys, by simp [hfa, hys]; rfl⟩

/-- Reading a list fails with the failure of its first item that does not read. -/
theorem mapM_append_cons_eq_error {pre post : List α} {c : α} {e : ε}
    (hpre : ∀ x ∈ pre, (f x).isOk) (hc : f c = .error e) :
    (pre ++ c :: post).mapM f = .error e := by
  obtain ⟨ys, hys⟩ := exists_mapM_eq_ok hpre
  simp only [List.mapM_append, List.mapM_cons, hys, hc]
  rfl

end MapM

variable {text : String}

/-- A page, not a JSON text, is loaded from its graph scripts' reading. -/
theorem loadStatements_of_page (hpage : (Text.trimStart text).toList.head? ≠ some '\x7b') :
    loadStatements text = (extractGraphs text).bind fun ds =>
      match ds with
      | d :: _ => .ok d
      | [] => .error .noGraphData := by
  simp only [loadStatements, hpage, if_false]
  rfl

/-- What a page loads as: nothing without a graph script; the first script's
statements (or failure) when every later script reads; and otherwise the
failure of the first script, in page order, that does not read. -/
theorem loadStatements_page (hpage : (Text.trimStart text).toList.head? ≠ some '\x7b') :
    (graphScripts text = [] → loadStatements text = .error .noGraphData) ∧
    (∀ b bs, graphScripts text = b :: bs →
      (∀ c ∈ bs, (readStatements (Text.trimSpace c)).isOk) →
      loadStatements text = readStatements (Text.trimSpace b)) ∧
    (∀ pre c post e, graphScripts text = pre ++ c :: post →
      (∀ b ∈ pre, (readStatements (Text.trimSpace b)).isOk) →
      readStatements (Text.trimSpace c) = .error e → loadStatements text = .error e) := by
  rw [loadStatements_of_page hpage]
  refine ⟨fun hnone => ?none, fun b bs hscripts hlater => ?first, fun pre c post e hscripts hpre hc => ?failed⟩
  case none => simp [extractGraphs, hnone]; rfl
  case first =>
    obtain ⟨ys, hys⟩ := exists_mapM_eq_ok hlater
    cases hb : readStatements (Text.trimSpace b) <;>
      simp [extractGraphs, hscripts, hb, hys] <;> rfl
  case failed =>
    have hread : extractGraphs text = .error e := by
      simp only [extractGraphs, hscripts]
      exact mapM_append_cons_eq_error hpre hc
    simp [hread]; rfl

/-- A page of one well-formed graph script loads as that script. -/
theorem loadStatements_single_script :
    loadStatements "<script data-render-graph=true>\x7b\"triples\": []\x7d</script>" =
      readStatements (Text.trimSpace "\x7b\"triples\": []\x7d") :=
  (loadStatements_page (by decide)).2.1 "\x7b\"triples\": []\x7d" [] (by decide +kernel) (by simp)

/-- A later script that does not read makes the whole page fail, although its
first script reads. -/
theorem loadStatements_later_script_fails :
    ∃ b bs, graphScripts ("<script data-render-graph=\"true\">\x7b\"triples\": []\x7d</script>" ++
        "<script data-render-graph=\"true\">\x7b\"triples\": [</script>") = b :: bs ∧
      loadStatements ("<script data-render-graph=\"true\">\x7b\"triples\": []\x7d</script>" ++
        "<script data-render-graph=\"true\">\x7b\"triples\": [</script>") ≠
        readStatements (Text.trimSpace b) := by
  refine ⟨_, _, (by decide +kernel : _ = ["\x7b\"triples\": []\x7d", "\x7b\"triples\": ["]), ?_⟩
  intro h
  have hload : (loadStatements ("<script data-render-graph=\"true\">\x7b\"triples\": []\x7d</script>" ++
      "<script data-render-graph=\"true\">\x7b\"triples\": [</script>")).isOk = false := by
    decide +kernel
  have hfirst : (readStatements (Text.trimSpace "\x7b\"triples\": []\x7d")).isOk = true := by
    decide +kernel
  rw [h] at hload
  simp [hload] at hfirst

end EntityGraph.Page
