import Mathlib
import EntityGraph.Proofs.Json.Numeral
import EntityGraph.Json.Document

/-! # Written JSON reads back

The compact text of a value reads back as that value, and the reader stops
right after it, whatever follows that does not go on with a number
(`Canonical.readsBack`). This holds of the values that reading itself
builds (`Canonical`): an integer below zero is a negative integer, the
members of an object come in strictly increasing key order, and a double
reads back from its own text. The brackets of the value must also nest less
deep than the reader's budget. Doubles are read by floating-point
operations that the logic does not open, so which doubles count is a
parameter of `Canonical`, and here it is the doubles that read back
(`FloatReadsBack`). A whole text holding such a value parses as it
(`parse_render`).

The proof goes by induction on `Canonical`. A scalar is one token; an array
reads its items one by one after commas (`moreItems_render`), an object its
members (`moreMembers_render`), and strictly increasing keys make folding
each member into those before it an append (`insertMember_of_lt`). -/

namespace EntityGraph.Json

/-! ## Canonical values -/

mutual

/-- How deep the brackets of a value nest: none for a scalar, one more than
its deepest item for an array or an object. -/
def depth : Json → Nat
  | .arr items => depthItems items + 1
  | .obj members => depthMembers members + 1
  | _ => 0

/-- The depth of the deepest of some items. -/
def depthItems : List Json → Nat
  | [] => 0
  | v :: rest => max v.depth (depthItems rest)

/-- The depth of the deepest value of some members. -/
def depthMembers : List (String × Json) → Nat
  | [] => 0
  | (_, v) :: rest => max v.depth (depthMembers rest)

end

theorem depth_le_depthItems {v : Json} {items : List Json} (h : v ∈ items) :
    v.depth ≤ depthItems items := by
  induction items with
  | nil => cases h
  | cons w rest ih =>
    rw [depthItems]
    rcases List.mem_cons.1 h with rfl | h
    · exact le_max_left _ _
    · exact (ih h).trans (le_max_right _ _)

theorem depth_le_depthMembers {m : String × Json} {members : List (String × Json)}
    (h : m ∈ members) : m.2.depth ≤ depthMembers members := by
  induction members with
  | nil => cases h
  | cons w rest ih =>
    obtain ⟨k, v⟩ := w
    rw [depthMembers]
    rcases List.mem_cons.1 h with rfl | h
    · exact le_max_left _ _
    · exact (ih h).trans (le_max_right _ _)

/-- The values that reading builds, up to which doubles `exact` admits: an
integer below zero is a negative integer, the members of an object come in
strictly increasing key order (so no key twice), and every double is one
that `exact` admits. -/
inductive Canonical (exact : Float → Prop) : Json → Prop
  | null : Canonical exact .null
  | bool (b : Bool) : Canonical exact (.bool b)
  | nat (n : UInt64) : Canonical exact (.num (.nat n))
  | neg {n : Int64} : n.toInt < 0 → Canonical exact (.num (.neg n))
  | float {x : Float} : exact x → Canonical exact (.num (.float x))
  | str (s : String) : Canonical exact (.str s)
  | arr {items : List Json} : (∀ v ∈ items, Canonical exact v) → Canonical exact (.arr items)
  | obj {members : List (String × Json)} : members.Pairwise (fun a b => a.1 < b.1) →
      (∀ m ∈ members, Canonical exact m.2) → Canonical exact (.obj members)

/-- A double that reads back from its own text. -/
def FloatReadsBack (x : Float) : Prop :=
  parse (Number.float x).render = .ok (.num (.float x))

section Arrays

variable {exact : Float → Prop}

theorem Canonical.arr_nil : (Json.arr []).Canonical exact :=
  .arr fun _ h => nomatch h

theorem Canonical.arr_cons {v : Json} {vs : List Json} (hv : v.Canonical exact)
    (hvs : (Json.arr vs).Canonical exact) : (Json.arr (v :: vs)).Canonical exact := by
  cases hvs with
  | arr h => exact .arr fun w hw => (List.mem_cons.1 hw).elim (fun e => e ▸ hv) (h w)

end Arrays

theorem depthItems_lt {items : List Json} {n : Nat} (h : ∀ v ∈ items, v.depth < n)
    (hn : 0 < n) : depthItems items < n := by
  induction items with
  | nil => simpa [depthItems]
  | cons v items ih =>
    rw [depthItems]
    exact max_lt (h v List.mem_cons_self) (ih fun w hw => h w (List.mem_cons_of_mem v hw))

/-- Text that can start an item of an array: its first character is no
blank and no closing bracket. -/
def StartsItem (u : List Char) : Prop :=
  ∃ c cs, u = c :: cs ∧ isBlank c = false ∧ c ≠ ']'

theorem startsItem_jsonQuote (s : String) : StartsItem (jsonQuote s).toList :=
  ⟨'"', _, toList_jsonQuote s, by decide, by decide⟩

/-- `read` reads `a` back from the text of `v`: the text can start an item,
and `read` takes `a` from the front of it followed by any text that does not
go on with a number. -/
structure ReadsBack (read : Reader α) (v : Json) (a : α) : Prop where
  head : StartsItem v.render.toList
  read_append : ∀ rest, NumberEnd rest → Step.out (read (v.render.toList ++ rest)) = .ok (a, rest)

theorem numberEnd_punct {c : Char} (h : c = ',' ∨ c = ']' ∨ c = '}') (t : List Char) :
    NumberEnd (c :: t) := by
  rcases h with rfl | rfl | rfl <;> simp only [NumberEnd, List.head?_cons, Option.mem_def,
    Option.some.injEq, forall_eq'] <;> decide

/-- After an item or a member come more of them, each after a comma, or the
closing bracket. -/
theorem numberEnd_flatMap_comma {f : β → List Char} (xs : List β) {close : Char}
    (h : close = ']' ∨ close = '}') (rest : List Char) :
    NumberEnd (xs.flatMap (fun x => ',' :: f x) ++ close :: rest) := by
  cases xs with
  | nil => exact numberEnd_punct (.inr h) rest
  | cons x xs => exact numberEnd_punct (.inl rfl) _

theorem readValue_eq_valueWith : ∀ d, ∃ nested, readValue d = valueWith nested
  | 0 => ⟨_, rfl⟩
  | 1 => ⟨_, rfl⟩
  | _ + 2 => ⟨_, rfl⟩

/-! ## Names and strings -/

/-- The names of JSON: the first letter, the letters after it, and the value
named. -/
def jsonNames : List (Char × List Char × Json) :=
  [('n', ['u', 'l', 'l'], .null), ('t', ['r', 'u', 'e'], .bool true),
    ('f', ['a', 'l', 's', 'e'], .bool false)]

theorem jsonNames_start : ∀ e ∈ jsonNames, isBlank e.1 = false ∧ e.1 ≠ ']' := by
  decide

theorem render_name {c : Char} {w : List Char} {v : Json} (h : (c, w, v) ∈ jsonNames) :
    v.render.toList = c :: w := by
  simp only [jsonNames, List.mem_cons, Prod.mk.injEq, List.not_mem_nil, or_false] at h
  rcases h with ⟨rfl, rfl, rfl⟩ | ⟨rfl, rfl, rfl⟩ | ⟨rfl, rfl, rfl⟩ <;> simp [Json.render]

theorem valueWith_name {c : Char} {w : List Char} {v : Json} (h : (c, w, v) ∈ jsonNames)
    (nested : Option (Reader Json)) (rest : List Char) :
    Step.out (valueWith nested (c :: (w ++ rest))) = .ok (v, rest) := by
  obtain ⟨_, hid⟩ := ident_append w rest
  simp only [jsonNames, List.mem_cons, Prod.mk.injEq, List.not_mem_nil, or_false] at h
  rcases h with ⟨rfl, rfl, rfl⟩ | ⟨rfl, rfl, rfl⟩ | ⟨rfl, rfl, rfl⟩ <;>
    simp only [List.cons_append, List.nil_append] at hid <;>
    simp [valueWith, blank, skipBlank, isBlank, hid, Except.map]

theorem readsBack_name {c : Char} {w : List Char} {v : Json} (h : (c, w, v) ∈ jsonNames)
    (nested : Option (Reader Json)) : ReadsBack (valueWith nested) v v := by
  obtain ⟨hc, hc'⟩ := jsonNames_start _ h
  refine ⟨⟨c, w, render_name h, hc, hc'⟩, fun rest _ => ?_⟩
  rw [render_name h, List.cons_append]
  exact valueWith_name h nested rest

theorem valueWith_string (s : String) (nested : Option (Reader Json)) (rest : List Char) :
    Step.out (valueWith nested ((jsonQuote s).toList ++ rest)) = .ok (.str s, rest) := by
  rw [toList_jsonQuote, List.cons_append, List.append_assoc, List.singleton_append]
  simp only [valueWith, blank_cons (by decide : isBlank '"' = false), Rest.refl]
  simp [Step.out_map_value _ Json.str, isDigit]
  rw [string_jsonQuote]
  rfl

theorem readsBack_str (s : String) (nested : Option (Reader Json)) :
    ReadsBack (valueWith nested) (.str s) (.str s) := by
  have htext : (Json.str s).render = jsonQuote s := by simp [Json.render]
  refine ⟨htext ▸ startsItem_jsonQuote s, fun rest _ => ?_⟩
  rw [htext]
  exact valueWith_string s nested rest

/-! ## Numbers -/

theorem start_of_isDigit {c : Char} (h : isDigit c = true) : isBlank c = false ∧ c ≠ ']' := by
  refine ⟨isBlank_eq_false_of_isDigit (by rwa [← isDigit_eq]), ?_⟩
  rintro rfl
  exact absurd h (by decide)

theorem valueWith_minus (nested : Option (Reader Json)) (t : List Char) :
    Step.out (valueWith nested ('-' :: t)) =
      (Step.out (unsignedNumber false t)).map fun p => (.num p.1, p.2) := by
  simp only [valueWith, blank_cons (by decide : isBlank '-' = false), Rest.refl]
  simp [Step.out_map_value _ (fun n => Json.num n)]

theorem valueWith_digit {c : Char} (hc : isDigit c = true) (nested : Option (Reader Json))
    (t : List Char) :
    Step.out (valueWith nested (c :: t)) =
      (Step.out (unsignedNumber true (c :: t))).map fun p => (.num p.1, p.2) := by
  have hne : ∀ d, isDigit d = false → c ≠ d := by
    rintro d hd rfl
    rw [hc] at hd
    cases hd
  simp only [valueWith, blank_cons (start_of_isDigit hc).1, Rest.refl, hne 'n' rfl, hne 't' rfl,
    hne 'f' rfl, hne '-' rfl, hc, if_false, if_true]
  simp [Step.out_map_value _ (fun n => Json.num n)]

theorem map_num_eq_ok {x : Except Fault (Number × List Char)} {n : Number} {r : List Char}
    (h : x.map (fun p => (Json.num p.1, p.2)) = .ok (.num n, r)) : x = .ok (n, r) := by
  cases x with
  | error e => cases h
  | ok p =>
    simp only [Except.map, Except.ok.injEq, Prod.mk.injEq, Json.num.injEq] at h
    rw [← h.1, ← h.2]

/-- The value read by a branch that wraps what it read after the first
character. -/
theorem Step.out_map_map_eq_ok {s t : List Char} {x : Except Fault β} {g : β → Json × Rest t}
    {k : Json × Rest t → Json × Rest s} {v : Json} {r : List Char}
    (h : Step.out ((x.map g).map k) = .ok (v, r)) : ∃ b, (k (g b)).1 = v := by
  cases x with
  | error e => cases h
  | ok b =>
    simp only [Step.out, Except.map, Except.ok.injEq, Prod.mk.injEq] at h
    exact ⟨b, h.1⟩

/-- Only a minus sign or a digit starts a number. -/
theorem valueWith_num {nested : Option (Reader Json)} {c : Char} {cs : List Char} {n : Number}
    {r : List Char} (hc : isBlank c = false)
    (h : Step.out (valueWith nested (c :: cs)) = .ok (.num n, r)) :
    (c = '-' ∧ Step.out (unsignedNumber false cs) = .ok (n, r)) ∨
      (isDigit c = true ∧ Step.out (unsignedNumber true (c :: cs)) = .ok (n, r)) := by
  by_cases hm : c = '-'
  · subst hm
    rw [valueWith_minus] at h
    exact .inl ⟨rfl, map_num_eq_ok h⟩
  by_cases hd : isDigit c = true
  · rw [valueWith_digit hd] at h
    exact .inr ⟨hd, map_num_eq_ok h⟩
  -- every other branch reads a value of another kind, or fails
  exfalso
  simp only [valueWith, blank_cons hc, Rest.refl, if_neg hm, if_neg hd] at h
  split_ifs at h
  · obtain ⟨_, hb⟩ := Step.out_map_map_eq_ok h
    cases hb
  · obtain ⟨_, hb⟩ := Step.out_map_map_eq_ok h
    cases hb
  · obtain ⟨_, hb⟩ := Step.out_map_map_eq_ok h
    cases hb
  · obtain ⟨_, hb⟩ := Step.out_map_map_eq_ok h
    cases hb
  · cases nested with
    | none => cases h
    | some inner =>
      obtain ⟨_, hb⟩ := Step.out_map_map_eq_ok h
      cases hb
  · cases nested with
    | none => cases h
    | some inner =>
      obtain ⟨_, hb⟩ := Step.out_map_map_eq_ok h
      cases hb
  · simp at h

theorem readsBack_nat (n : UInt64) (nested : Option (Reader Json)) :
    ReadsBack (valueWith nested) (.num (.nat n)) (.num (.nat n)) := by
  have htext : (Json.num (.nat n)).render.toList = Nat.toDigits 10 n.toNat := by
    simp [Json.render, Number.render]
  have hne : Nat.toDigits 10 n.toNat ≠ [] := Nat.toDigits_ne_nil
  obtain ⟨c, cs, hcs⟩ := List.exists_cons_of_ne_nil hne
  have hmem : c ∈ Nat.toDigits 10 n.toNat := by simp [hcs]
  have hd : isDigit c = true := isDigit_of_mem_toDigits hmem
  refine ⟨⟨c, cs, htext.trans hcs, start_of_isDigit hd⟩, fun rest hr => ?_⟩
  have hread := unsignedNumber_render_nat n hr
  rw [toList_render_nat, hcs, List.cons_append] at hread
  rw [htext, hcs, List.cons_append, valueWith_digit hd, hread]
  rfl

theorem readsBack_neg {n : Int64} (h : n.toInt < 0) (nested : Option (Reader Json)) :
    ReadsBack (valueWith nested) (.num (.neg n)) (.num (.neg n)) := by
  have htext : (Json.num (.neg n)).render.toList = '-' :: Nat.toDigits 10 n.toInt.natAbs := by
    rw [← toList_render_neg h]
    simp [Json.render]
  refine ⟨⟨'-', _, htext, by decide, by decide⟩, fun rest hr => ?_⟩
  rw [htext, List.cons_append, valueWith_minus, unsignedNumber_render_neg h hr]
  rfl

theorem readWhole_eq_ok {read : Reader α} {text : List Char} {v : α} :
    readWhole read text = .ok v ↔ ∃ r, Step.out (read text) = .ok (v, r) ∧ skipBlank r = [] := by
  unfold readWhole
  cases read text with
  | error f => simp
  | ok p =>
    obtain ⟨a, r, hr⟩ := p
    simp only [blank, Step.out_ok, Except.ok.injEq, Prod.mk.injEq]
    split <;> simp_all

theorem parse_eq_ok {text : String} {v : Json} :
    parse text = .ok v ↔ readWhole (readValue depthBudget) text.toList = .ok v := by
  unfold parse readText
  cases readWhole (readValue depthBudget) text.toList <;> simp [Except.mapError]

/-- Blank space that ends a text without blank space is none. -/
theorem eq_nil_of_skipBlank {r : List Char} (h : skipBlank r = [])
    (hr : ∀ c ∈ r, isBlank c = false) : r = [] := by
  cases r with
  | nil => rfl
  | cons c cs =>
    rw [skipBlank_cons (hr c (by simp))] at h
    cases h

/-- The text of a double that reads back is a number token that reads back
as the double: a minus sign and what follows it, or a digit and what
follows it. -/
theorem float_token {x : Float} (hx : parse (Number.float x).render = .ok (.num (.float x))) :
    ∃ c u, (Number.float x).render.toList = c :: u ∧
      ((c = '-' ∧ StopsAfter (unsignedNumber false) (.float x) u) ∨
        (isDigit c = true ∧ StopsAfter (unsignedNumber true) (.float x) (c :: u))) := by
  obtain ⟨r, hread, hblank⟩ := readWhole_eq_ok.1 (parse_eq_ok.1 hx)
  have hnb : ∀ c ∈ (Number.float x).render.toList, isBlank c = false := noBlank_renderFloat x
  obtain ⟨inner, hinner⟩ := readValue_eq_valueWith depthBudget
  rw [hinner] at hread
  cases ht : (Number.float x).render.toList with
  | nil => simp [ht, valueWith, blank, skipBlank] at hread
  | cons c cs =>
    rw [ht] at hread hnb
    -- what the number leaves is blank space inside the double's text, so nothing
    have hrest : ∀ u, c :: cs = u ++ r → r = [] := fun u hu =>
      eq_nil_of_skipBlank hblank fun d hd => hnb d (by simp [hu, hd])
    rcases valueWith_num (hnb c (by simp)) hread with ⟨rfl, hnum⟩ | ⟨hd, hnum⟩
    · obtain ⟨u, hu, hstop⟩ := unsignedNumber_stops hnum
      obtain rfl := hrest ('-' :: u) (by rw [hu]; rfl)
      rw [List.append_nil] at hu
      exact ⟨'-', cs, rfl, .inl ⟨rfl, hu ▸ hstop⟩⟩
    · obtain ⟨u, hu, hstop⟩ := unsignedNumber_stops hnum
      obtain rfl := hrest u hu
      rw [List.append_nil] at hu
      exact ⟨c, cs, rfl, .inr ⟨hd, hu ▸ hstop⟩⟩

theorem readsBack_float {x : Float} (hx : parse (Number.float x).render = .ok (.num (.float x)))
    (nested : Option (Reader Json)) :
    ReadsBack (valueWith nested) (.num (.float x)) (.num (.float x)) := by
  have htext : (Json.num (.float x)).render = (Number.float x).render := by simp [Json.render]
  obtain ⟨c, u, hcu, ⟨rfl, hstop⟩ | ⟨hd, hstop⟩⟩ := float_token hx
  · refine ⟨⟨'-', u, htext ▸ hcu, by decide, by decide⟩, fun rest hr => ?_⟩
    rw [htext, hcu, List.cons_append, valueWith_minus, hstop rest hr]
    rfl
  · refine ⟨⟨c, u, htext ▸ hcu, start_of_isDigit hd⟩, fun rest hr => ?_⟩
    rw [htext, hcu, List.cons_append, valueWith_digit hd, ← List.cons_append, hstop rest hr]
    rfl

/-! ## Arrays -/

theorem valueWith_array (inner : Reader Json) (t : List Char) :
    Step.out (valueWith (some inner) ('[' :: t)) =
      (Step.out (enclosed closeSeq (items inner) t)).map fun p => (.arr p.1, p.2) := by
  simp only [valueWith, blank_cons (by decide : isBlank '[' = false), Rest.refl]
  simp [Step.out_map_value _ Json.arr, isDigit]

theorem valueWith_object (inner : Reader Json) (t : List Char) :
    Step.out (valueWith (some inner) ('\x7b' :: t)) =
      (Step.out (enclosed closeMap (members (valueMember inner) []) t)).map
        fun p => (.obj p.1, p.2) := by
  simp only [valueWith, blank_cons (by decide : isBlank '\x7b' = false), Rest.refl]
  simp [Step.out_map_value _ Json.obj, isDigit]

theorem enclosed_closeSeq {inside : Reader α} {t : List Char} {a : α} {rest : List Char}
    (h : Step.out (inside t) = .ok (a, ']' :: rest)) :
    Step.out (enclosed closeSeq inside t) = .ok (a, rest) := by
  obtain ⟨_, hin⟩ := Step.out_eq_ok_iff.1 h
  simp [enclosed, hin, closeSeq, blank_cons (by decide : isBlank ']' = false), Rest.refl]

theorem items_close (item : Reader α) (rest : List Char) :
    Step.out (items item (']' :: rest)) = .ok ([], ']' :: rest) := by
  simp [items, blank_cons (by decide : isBlank ']' = false), Rest.refl]

theorem items_cons {item : Reader α} {c : Char} (hc : isBlank c = false) (hc' : c ≠ ']')
    {cs : List Char} {a : α} {r : List Char} (h : Step.out (item (c :: cs)) = .ok (a, r)) :
    Step.out (items item (c :: cs)) = Step.out (moreItems item [a] r) := by
  obtain ⟨_, hitem⟩ := Step.out_eq_ok_iff.1 h
  rw [items]
  simp [blank_cons hc, Rest.refl, hitem]

theorem moreItems_close (item : Reader α) (acc : List α) (rest : List Char) :
    Step.out (moreItems item acc (']' :: rest)) = .ok (acc.reverse, ']' :: rest) := by
  rw [moreItems]
  simp [blank_cons (by decide : isBlank ']' = false), Rest.refl]

theorem moreItems_comma {item : Reader α} {c : Char} (hc : isBlank c = false) (hc' : c ≠ ']')
    {cs : List Char} {a : α} {r : List Char} (h : Step.out (item (c :: cs)) = .ok (a, r))
    (acc : List α) :
    Step.out (moreItems item acc (',' :: c :: cs)) = Step.out (moreItems item (a :: acc) r) := by
  obtain ⟨_, hitem⟩ := Step.out_eq_ok_iff.1 h
  rw [moreItems]
  simp [blank_cons (by decide : isBlank ',' = false), blank_cons hc, Rest.refl, hitem]

theorem toList_renderItems_cons (v : Json) (vs : List Json) :
    (renderItems (v :: vs)).toList =
      v.render.toList ++ vs.flatMap (fun w => ',' :: w.render.toList) := by
  induction vs generalizing v with
  | nil => simp [renderItems]
  | cons w ws ih => simp [renderItems, ih]

section Items

variable {item : Reader α} {g : α → Json}

/-- The items after the first, each after a comma, read back up to the
closing bracket, after those read before them. -/
theorem moreItems_render {xs : List α} (hxs : ∀ x ∈ xs, ReadsBack item (g x) x) (acc : List α)
    (rest : List Char) :
    Step.out (moreItems item acc
        ((xs.map g).flatMap (fun w => ',' :: w.render.toList) ++ ']' :: rest)) =
      .ok (acc.reverse ++ xs, ']' :: rest) := by
  induction xs generalizing acc with
  | nil =>
    rw [List.map_nil, List.flatMap_nil, List.nil_append, List.append_nil]
    exact moreItems_close item acc rest
  | cons x xs ih =>
    obtain ⟨⟨c, cs, htext, hc, hc'⟩, hread⟩ := hxs x (by simp)
    have hx := hread ((xs.map g).flatMap (fun w => ',' :: w.render.toList) ++ ']' :: rest)
      (numberEnd_flatMap_comma _ (.inl rfl) rest)
    rw [htext, List.cons_append] at hx
    rw [List.map_cons, List.flatMap_cons, List.cons_append, List.cons_append, List.append_assoc,
      htext, List.cons_append, moreItems_comma hc hc' hx, ih (fun y hy => hxs y (by simp [hy]))]
    simp

/-- The items of an array read back up to its closing bracket. -/
theorem items_render {xs : List α} (hxs : ∀ x ∈ xs, ReadsBack item (g x) x) (rest : List Char) :
    Step.out (items item ((renderItems (xs.map g)).toList ++ ']' :: rest)) =
      .ok (xs, ']' :: rest) := by
  cases xs with
  | nil =>
    rw [List.map_nil, renderItems]
    exact items_close item rest
  | cons x xs =>
    obtain ⟨⟨c, cs, htext, hc, hc'⟩, hread⟩ := hxs x (by simp)
    have hx := hread ((xs.map g).flatMap (fun w => ',' :: w.render.toList) ++ ']' :: rest)
      (numberEnd_flatMap_comma _ (.inl rfl) rest)
    rw [htext, List.cons_append] at hx
    rw [List.map_cons, toList_renderItems_cons, List.append_assoc, htext, List.cons_append,
      items_cons hc hc' hx, moreItems_render (fun y hy => hxs y (by simp [hy]))]
    simp

end Items

/-- An array reads back when the reader of nested values reads back each of
its items. -/
theorem readsBack_arr {inner : Reader Json} {vs : List Json}
    (hvs : ∀ v ∈ vs, ReadsBack inner v v) :
    ReadsBack (valueWith (some inner)) (.arr vs) (.arr vs) := by
  have htext : (Json.arr vs).render.toList = '[' :: ((renderItems vs).toList ++ [']']) := by
    simp [Json.render]
  refine ⟨⟨'[', _, htext, by decide, by decide⟩, fun rest _ => ?_⟩
  have hitems : Step.out (items inner ((renderItems (vs.map id)).toList ++ ']' :: rest)) =
      .ok (vs, ']' :: rest) := items_render hvs rest
  rw [List.map_id] at hitems
  rw [htext, List.cons_append, List.append_assoc, List.singleton_append, valueWith_array,
    enclosed_closeSeq hitems]
  rfl

/-! ## Objects -/

theorem enclosed_closeMap {inside : Reader α} {t : List Char} {a : α} {rest : List Char}
    (h : Step.out (inside t) = .ok (a, '\x7d' :: rest)) :
    Step.out (enclosed closeMap inside t) = .ok (a, rest) := by
  obtain ⟨_, hin⟩ := Step.out_eq_ok_iff.1 h
  simp [enclosed, hin, closeMap, blank_cons (by decide : isBlank '\x7d' = false), Rest.refl]

/-- A member whose key is greater than every key before it goes last. -/
theorem insertMember_of_lt {key : String} {v : Json} {acc : List (String × Json)}
    (h : ∀ m ∈ acc, m.1 < key) : insertMember key v acc = acc ++ [(key, v)] := by
  induction acc with
  | nil => rfl
  | cons m acc ih =>
    obtain ⟨k, w⟩ := m
    have hk : k < key := h (k, w) (by simp)
    rw [insertMember, if_neg (lt_asymm hk), if_neg (ne_of_gt hk),
      ih (fun m hm => h m (by simp [hm]))]
    rfl

theorem valueMember_read {inner : Reader Json} {t : List Char} {v : Json} {r : List Char}
    (h : Step.out (inner t) = .ok (v, r)) (acc : List (String × Json)) (key : String) :
    Step.out (valueMember inner acc key (':' :: t)) = .ok (insertMember key v acc, r) := by
  obtain ⟨_, hin⟩ := Step.out_eq_ok_iff.1 h
  simp [valueMember, colon, blank_cons (by decide : isBlank ':' = false), Rest.refl, Rest.tail,
    Rest.cons, Rest.lift, hin, Except.map]

theorem members_close (member : MemberReader σ) (st : σ) (rest : List Char) :
    Step.out (members member st ('\x7d' :: rest)) = .ok (st, '\x7d' :: rest) := by
  simp [members, blank_cons (by decide : isBlank '\x7d' = false), Rest.refl]

theorem members_key {member : MemberReader σ} {st st' : σ} {t : List Char} {key : String}
    {k r : List Char} (hk : Step.out (string t) = .ok (key, k))
    (hm : Step.out (member st key k) = .ok (st', r)) :
    Step.out (members member st ('"' :: t)) = Step.out (moreMembers member st' r) := by
  obtain ⟨_, hstr⟩ := Step.out_eq_ok_iff.1 hk
  obtain ⟨_, hmem⟩ := Step.out_eq_ok_iff.1 hm
  rw [members]
  simp [blank_cons (by decide : isBlank '"' = false), Rest.refl, hstr, hmem]

theorem moreMembers_close (member : MemberReader σ) (st : σ) (rest : List Char) :
    Step.out (moreMembers member st ('\x7d' :: rest)) = .ok (st, '\x7d' :: rest) := by
  rw [moreMembers]
  simp [blank_cons (by decide : isBlank '\x7d' = false), Rest.refl]

theorem moreMembers_key {member : MemberReader σ} {st st' : σ} {t : List Char} {key : String}
    {k r : List Char} (hk : Step.out (string t) = .ok (key, k))
    (hm : Step.out (member st key k) = .ok (st', r)) :
    Step.out (moreMembers member st (',' :: '"' :: t)) = Step.out (moreMembers member st' r) := by
  obtain ⟨_, hstr⟩ := Step.out_eq_ok_iff.1 hk
  obtain ⟨_, hmem⟩ := Step.out_eq_ok_iff.1 hm
  rw [moreMembers]
  simp [blank_cons (by decide : isBlank ',' = false), blank_cons (by decide : isBlank '"' = false),
    Rest.refl, hstr, hmem]

/-- The text of an object member: its key, a colon and its value. -/
def memberText (m : String × Json) : List Char :=
  (jsonQuote m.1).toList ++ ':' :: m.2.render.toList

theorem toList_renderMembers_cons (m : String × Json) (ms : List (String × Json)) :
    (renderMembers (m :: ms)).toList =
      memberText m ++ ms.flatMap (fun m => ',' :: memberText m) := by
  induction ms generalizing m with
  | nil =>
    obtain ⟨k, v⟩ := m
    simp [renderMembers, memberText]
  | cons m' ms ih =>
    obtain ⟨k, v⟩ := m
    simp [renderMembers, memberText, ih]

/-- A member's text, with what follows it, from after its opening quote. -/
theorem memberText_append (k : String) (v : Json) (rest : List Char) :
    memberText (k, v) ++ rest =
      '"' :: (k.toList.flatMap jsonEscapeChar ++ '"' :: ':' :: (v.render.toList ++ rest)) := by
  simp [memberText, toList_jsonQuote]

/-- The members after the first, each after a comma, read back up to the
closing brace, after those read before them, when the keys increase. -/
theorem moreMembers_render {inner : Reader Json} {ms : List (String × Json)}
    (hms : ∀ m ∈ ms, ReadsBack inner m.2 m.2) {acc : List (String × Json)}
    (hsorted : (acc ++ ms).Pairwise (fun a b => a.1 < b.1)) (rest : List Char) :
    Step.out (moreMembers (valueMember inner) acc
        (ms.flatMap (fun m => ',' :: memberText m) ++ '\x7d' :: rest)) =
      .ok (acc ++ ms, '\x7d' :: rest) := by
  induction ms generalizing acc with
  | nil =>
    rw [List.flatMap_nil, List.nil_append, List.append_nil]
    exact moreMembers_close _ acc rest
  | cons m ms ih =>
    obtain ⟨k, v⟩ := m
    have hv := (hms (k, v) (by simp)).read_append
      (ms.flatMap (fun m => ',' :: memberText m) ++ '\x7d' :: rest)
      (numberEnd_flatMap_comma ms (.inr rfl) rest)
    -- the keys before are all below this one, so the member goes last
    have hlt : ∀ m ∈ acc, m.1 < k := fun m hm =>
      (List.pairwise_append.1 hsorted).2.2 m hm (k, v) (by simp)
    rw [List.flatMap_cons, List.cons_append, List.cons_append, List.append_assoc,
      memberText_append, moreMembers_key (string_jsonQuote k _) (valueMember_read hv acc k),
      insertMember_of_lt hlt,
      ih (fun m hm => hms m (by simp [hm])) (by rwa [List.append_assoc, List.singleton_append])]
    simp

theorem members_render {inner : Reader Json} {ms : List (String × Json)}
    (hms : ∀ m ∈ ms, ReadsBack inner m.2 m.2) (hsorted : ms.Pairwise (fun a b => a.1 < b.1))
    (rest : List Char) :
    Step.out (members (valueMember inner) [] ((renderMembers ms).toList ++ '\x7d' :: rest)) =
      .ok (ms, '\x7d' :: rest) := by
  cases ms with
  | nil => simpa [renderMembers] using members_close (valueMember inner) [] rest
  | cons m ms =>
    obtain ⟨k, v⟩ := m
    have hv := (hms (k, v) (by simp)).read_append
      (ms.flatMap (fun m => ',' :: memberText m) ++ '\x7d' :: rest)
      (numberEnd_flatMap_comma ms (.inr rfl) rest)
    have hfirst : insertMember k v [] = [(k, v)] := rfl
    rw [toList_renderMembers_cons, List.append_assoc, memberText_append,
      members_key (string_jsonQuote k _) (valueMember_read hv [] k), hfirst]
    exact moreMembers_render (fun m hm => hms m (by simp [hm]))
      (by rwa [List.singleton_append]) rest

/-- An object reads back when its keys increase and the reader of nested
values reads back each of its values. -/
theorem readsBack_obj {inner : Reader Json} {ms : List (String × Json)}
    (hms : ∀ m ∈ ms, ReadsBack inner m.2 m.2) (hsorted : ms.Pairwise (fun a b => a.1 < b.1)) :
    ReadsBack (valueWith (some inner)) (.obj ms) (.obj ms) := by
  have htext : (Json.obj ms).render.toList =
      '\x7b' :: ((renderMembers ms).toList ++ ['\x7d']) := by
    simp [Json.render]
  refine ⟨⟨'\x7b', _, htext, by decide, by decide⟩, fun rest _ => ?_⟩
  rw [htext, List.cons_append, List.append_assoc, List.singleton_append, valueWith_object,
    enclosed_closeMap (members_render hms hsorted rest)]
  rfl

/-! ## Every canonical value -/

/-- What the value reader reads back with any reader of nested values, it
reads back at any budget. -/
theorem readsBack_readValue {v a : Json} (h : ∀ nested, ReadsBack (valueWith nested) v a)
    (d : Nat) : ReadsBack (readValue d) v a := by
  obtain ⟨nested, hd⟩ := readValue_eq_valueWith d
  rw [hd]
  exact h nested

/-- Every canonical value reads back from its text, given a depth budget
deeper than its brackets nest. -/
theorem Canonical.readsBack {v : Json} (hv : v.Canonical FloatReadsBack) {d : Nat}
    (hd : v.depth < d) :
    ReadsBack (readValue d) v v := by
  induction hv generalizing d with
  | null => exact readsBack_readValue (readsBack_name (.head _)) d
  | bool b =>
    cases b
    · exact readsBack_readValue (readsBack_name (.tail _ (.tail _ (.head _)))) d
    · exact readsBack_readValue (readsBack_name (.tail _ (.head _))) d
  | nat n => exact readsBack_readValue (readsBack_nat n) d
  | neg hn => exact readsBack_readValue (readsBack_neg hn) d
  | float hx => exact readsBack_readValue (readsBack_float hx) d
  | str s => exact readsBack_readValue (readsBack_str s) d
  | @arr items _ ih =>
    -- an array opens a level, so the budget has one to spare
    simp only [depth] at hd
    obtain ⟨d, rfl⟩ : ∃ d', d = d' + 2 := ⟨d - 2, by omega⟩
    exact readsBack_arr fun v hv => ih v hv (by have := depth_le_depthItems hv; omega)
  | @obj members hsorted _ ih =>
    simp only [depth] at hd
    obtain ⟨d, rfl⟩ : ∃ d', d = d' + 2 := ⟨d - 2, by omega⟩
    exact readsBack_obj (fun m hm => ih m hm (by have := depth_le_depthMembers hm; omega)) hsorted

/-- The compact text of a canonical value parses as the value, given that
its brackets nest less deep than the depth budget. -/
theorem parse_render {v : Json} (hv : v.Canonical FloatReadsBack) (hd : v.depth < depthBudget) :
    parse v.render = .ok v := by
  have hread := (hv.readsBack hd).read_append [] (by simp [NumberEnd])
  rw [List.append_nil] at hread
  exact parse_eq_ok.2 (readWhole_eq_ok.2 ⟨[], hread, rfl⟩)

end EntityGraph.Json
