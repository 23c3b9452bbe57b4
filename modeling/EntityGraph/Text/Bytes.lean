/-! The number of bytes characters take in UTF-8, counted by a running sum
so that long texts need no deep recursion; the lemmas give it the shape of
a sum over the characters. -/

namespace EntityGraph.Text

/-- The number of bytes the characters of `cs` take in UTF-8. -/
def utf8Length (cs : List Char) : Nat := cs.foldl (fun n c => n + c.utf8Size) 0

theorem foldl_utf8Size (k : Nat) (cs : List Char) :
    cs.foldl (fun n c => n + c.utf8Size) k = k + utf8Length cs := by
  induction cs generalizing k with
  | nil => simp [utf8Length]
  | cons c cs ih =>
    simp only [utf8Length, List.foldl_cons]
    rw [ih, ih (0 + c.utf8Size)]
    omega

@[simp] theorem utf8Length_nil : utf8Length [] = 0 := rfl

@[simp] theorem utf8Length_cons (c : Char) (cs : List Char) :
    utf8Length (c :: cs) = c.utf8Size + utf8Length cs := by
  show List.foldl (fun n c => n + c.utf8Size) (0 + c.utf8Size) cs = _
  rw [foldl_utf8Size]
  omega

@[simp] theorem utf8Length_append (a b : List Char) :
    utf8Length (a ++ b) = utf8Length a + utf8Length b := by
  induction a with
  | nil => simp
  | cons c cs ih => simp [ih, Nat.add_assoc]

/-- Every character takes at least one byte. -/
theorem length_le_utf8Length (cs : List Char) : cs.length ≤ utf8Length cs := by
  induction cs with
  | nil => simp
  | cons c cs ih =>
    have := c.utf8Size_pos
    simp only [utf8Length_cons, List.length_cons]
    omega

/-- The bytes of a text are the bytes of its characters. -/
theorem utf8Length_toList (s : String) : utf8Length s.toList = s.utf8ByteSize := by
  induction s using String.push_induction with
  | empty => simp
  | push s c ih =>
    simp [String.toList_push, String.utf8ByteSize_push, ih]

end EntityGraph.Text
