/-!
# Lengths in bytes

Texts are lists of characters; lengths and offsets are counts of the bytes that UTF-8 gives them.
`byteLength` measures a text, `takeBytes` and `dropBytes?` cut it at a byte offset. An offset inside
a character has no cut: `dropBytes?` then answers `none`.
-/

namespace Recognizer.Text

/-- The number of bytes of a text in UTF-8. -/
def byteLength (cs : List Char) : Nat :=
  cs.foldl (fun n c => n + c.utf8Size) 0

/-- What is left of a text after its first `n` bytes, if they end between two characters. -/
def dropBytes? : Nat → List Char → Option (List Char)
  | 0, cs => some cs
  | _ + 1, [] => none
  | n + 1, c :: cs => if c.utf8Size ≤ n + 1 then dropBytes? (n + 1 - c.utf8Size) cs else none

/-- The characters of a text that fit into `n` bytes, behind those already `taken`. -/
def takeBytesOnto (taken : List Char) : Nat → List Char → List Char
  | 0, _ => taken.reverse
  | _ + 1, [] => taken.reverse
  | n + 1, c :: cs =>
    if c.utf8Size ≤ n + 1 then takeBytesOnto (c :: taken) (n + 1 - c.utf8Size) cs
    else taken.reverse

/-- The longest run of leading characters that fits into `n` bytes. -/
def takeBytes (n : Nat) (cs : List Char) : List Char :=
  takeBytesOnto [] n cs

/-- The bytes can be added up from any number. -/
theorem foldl_utf8Size (cs : List Char) (n : Nat) :
    cs.foldl (fun n c => n + c.utf8Size) n = n + byteLength cs := by
  unfold byteLength
  induction cs generalizing n with
  | nil => rfl
  | cons c cs ih => rw [List.foldl_cons, List.foldl_cons, ih, ih (0 + c.utf8Size)]; omega

/-- No characters have no bytes. -/
@[simp] theorem byteLength_nil : byteLength [] = 0 := rfl

/-- A character has its bytes before those of the others. -/
@[simp] theorem byteLength_cons (c : Char) (cs : List Char) :
    byteLength (c :: cs) = c.utf8Size + byteLength cs := by
  rw [byteLength, List.foldl_cons, foldl_utf8Size, Nat.zero_add]

/-- Bytes of texts add up. -/
@[simp] theorem byteLength_append (as bs : List Char) :
    byteLength (as ++ bs) = byteLength as + byteLength bs := by
  induction as with
  | nil => simp
  | cons c as ih => simp [ih]; omega

/-- No character is without bytes. -/
theorem byteLength_cons_pos (c : Char) (cs : List Char) : 0 < byteLength (c :: cs) := by
  rw [byteLength_cons]
  exact Nat.add_pos_left c.utf8Size_pos _

/-- A text without bytes has no characters. -/
theorem byteLength_eq_zero {cs : List Char} : byteLength cs = 0 ↔ cs = [] := by
  cases cs with
  | nil => simp
  | cons c cs =>
    have := c.utf8Size_pos
    simp only [byteLength_cons, reduceCtorEq, iff_false]
    omega

/-- A cut between two parts of a text leaves the second part. -/
theorem dropBytes?_append (as bs : List Char) :
    dropBytes? (byteLength as) (as ++ bs) = some bs := by
  induction as with
  | nil => cases bs <;> rfl
  | cons c as ih =>
    have hc := c.utf8Size_pos
    obtain ⟨n, hn⟩ : ∃ n, byteLength (c :: as) = n + 1 := ⟨byteLength (c :: as) - 1, by simp; omega⟩
    rw [hn, List.cons_append, dropBytes?]
    rw [byteLength_cons] at hn
    rw [if_pos (by omega), show n + 1 - c.utf8Size = byteLength as by omega, ih]

/-- Every cut splits the text in two, the first part having the length that was asked for. -/
theorem eq_append_of_dropBytes? {n : Nat} {cs rest : List Char} (h : dropBytes? n cs = some rest) :
    ∃ taken, cs = taken ++ rest ∧ byteLength taken = n := by
  induction cs generalizing n with
  | nil =>
    cases n with
    | zero => exact ⟨[], by simpa [dropBytes?] using h⟩
    | succ n => simp [dropBytes?] at h
  | cons c cs ih =>
    cases n with
    | zero => exact ⟨[], by simpa [dropBytes?] using h⟩
    | succ n =>
      rw [dropBytes?] at h
      split at h
      · obtain ⟨taken, rfl, ht⟩ := ih h
        exact ⟨c :: taken, rfl, by simp; omega⟩
      · cases h

/-- The first bytes of a text are those of the part that ends there. -/
theorem takeBytesOnto_eq (taken as bs : List Char) :
    takeBytesOnto taken (byteLength as) (as ++ bs) = taken.reverse ++ as := by
  induction as generalizing taken with
  | nil => cases bs <;> simp [takeBytesOnto]
  | cons c as ih =>
    have hc := c.utf8Size_pos
    obtain ⟨n, hn⟩ : ∃ n, byteLength (c :: as) = n + 1 := ⟨byteLength (c :: as) - 1, by simp; omega⟩
    rw [hn, List.cons_append, takeBytesOnto]
    rw [byteLength_cons] at hn
    rw [if_pos (by omega), show n + 1 - c.utf8Size = byteLength as by omega, ih]
    simp

/-- A cut between two parts of a text takes the first part. -/
theorem takeBytes_append (as bs : List Char) : takeBytes (byteLength as) (as ++ bs) = as :=
  takeBytesOnto_eq [] as bs

/-- Of two leading parts of a text the shorter one is a leading part of the longer one. -/
theorem isPrefixOf_of_byteLength_le {as bs as' bs' : List Char} (h : as ++ bs = as' ++ bs')
    (le : byteLength as ≤ byteLength as') : ∃ mid, as' = as ++ mid := by
  induction as generalizing as' with
  | nil => exact ⟨as', rfl⟩
  | cons c as ih =>
    cases as' with
    | nil =>
      have := c.utf8Size_pos
      simp only [byteLength_cons, byteLength_nil] at le
      omega
    | cons c' as' =>
      simp only [List.cons_append, List.cons.injEq] at h
      obtain ⟨rfl, h⟩ := h
      obtain ⟨mid, rfl⟩ := ih h (by simp only [byteLength_cons] at le; omega)
      exact ⟨mid, rfl⟩

end Recognizer.Text
