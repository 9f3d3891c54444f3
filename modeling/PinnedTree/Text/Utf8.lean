/-!
Lengths of texts in bytes of UTF-8. Positions in a text are counted so throughout.
-/

namespace PinnedTree.Text

def byteLength (chars : List Char) : Nat :=
  chars.foldr (fun c rest => c.utf8Size + rest) 0

@[simp] theorem byteLength_nil : byteLength [] = 0 := rfl

@[simp] theorem byteLength_cons (c : Char) (rest : List Char) :
    byteLength (c :: rest) = c.utf8Size + byteLength rest := rfl

@[simp] theorem byteLength_append (left right : List Char) :
    byteLength (left ++ right) = byteLength left + byteLength right := by
  induction left with
  | nil => simp
  | cons c left ih => simp [ih, Nat.add_assoc]

end PinnedTree.Text
