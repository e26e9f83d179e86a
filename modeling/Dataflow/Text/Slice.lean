/-!
# Dataflow.Text.Slice

Cutting a text at byte offsets.  Offsets count the bytes of the UTF-8 form of
the text, and a cut is only possible between two characters (`cut?`).  A slice
is made by two cuts (`slice?`), so an empty stretch inside a character is
refused like any other.

`cut?_eq_some_iff` and `slice?_eq_some_iff` say exactly when a cut or a slice
is possible and what it is.
-/

namespace Dataflow

/-- The number of bytes of some characters. -/
def byteLength : List Char → Nat
  | [] => 0
  | c :: text => c.utf8Size + byteLength text

/-- Cut a text after `offset` bytes.  There is no cut behind the end of the
text or inside a character. -/
def cut? : List Char → Nat → Option (List Char × List Char)
  | text, 0 => some ([], text)
  | [], _ + 1 => none
  | c :: text, offset =>
    if c.utf8Size ≤ offset then
      (cut? text (offset - c.utf8Size)).map fun (before, after) => (c :: before, after)
    else
      none

/-- The part of a text from byte `start` up to byte `stop`. -/
def slice? (text : List Char) (start stop : Nat) : Option (List Char) :=
  if start ≤ stop then do
    let (_, rest) ← cut? text start
    let (middle, _) ← cut? rest (stop - start)
    return middle
  else
    none

/-! ## What a cut is -/

@[simp] theorem byteLength_nil : byteLength [] = 0 := rfl

@[simp] theorem byteLength_cons (c : Char) (text : List Char) :
    byteLength (c :: text) = c.utf8Size + byteLength text := rfl

@[simp] theorem byteLength_append (a b : List Char) :
    byteLength (a ++ b) = byteLength a + byteLength b := by
  induction a with
  | nil => simp
  | cons c a ih => rw [List.cons_append, byteLength_cons, byteLength_cons, ih, Nat.add_assoc]

theorem byteLength_eq_zero_iff {text : List Char} : byteLength text = 0 ↔ text = [] := by
  cases text with
  | nil => simp
  | cons c text =>
    have := c.utf8Size_pos
    simp only [byteLength_cons, reduceCtorEq, iff_false]
    omega

/-- The bytes are those of the UTF-8 form. -/
theorem byteLength_eq_utf8ByteSize (text : List Char) :
    byteLength text = (String.ofList text).utf8ByteSize := by
  induction text with
  | nil => simp
  | cons c text ih =>
    rw [byteLength_cons, ih, show c :: text = [c] ++ text from rfl, String.ofList_append,
      String.utf8ByteSize_append]
    simp

/-- A cut after `offset` bytes splits the text into two parts of which the
first has that many bytes. -/
theorem cut?_eq_some_iff {text before after : List Char} {offset : Nat} :
    cut? text offset = some (before, after) ↔
      text = before ++ after ∧ byteLength before = offset := by
  induction text generalizing offset before with
  | nil =>
    cases offset with
    | zero =>
      simp only [cut?, Option.some.injEq, Prod.mk.injEq, List.nil_eq, List.append_eq_nil_iff,
        byteLength_eq_zero_iff]
      grind
    | succ n =>
      simp only [cut?, reduceCtorEq, List.nil_eq, List.append_eq_nil_iff, false_iff]
      rintro ⟨⟨rfl, -⟩, h⟩
      simp at h
  | cons c text ih =>
    cases offset with
    | zero =>
      simp only [cut?, Option.some.injEq, Prod.mk.injEq, byteLength_eq_zero_iff]
      grind
    | succ n =>
      have hpos := c.utf8Size_pos
      simp only [cut?]
      split
      · rename_i hle
        simp only [Option.map_eq_some_iff, Prod.exists, Prod.mk.injEq]
        constructor
        · rintro ⟨b, a, hcut, rfl, rfl⟩
          obtain ⟨rfl, hlen⟩ := ih.mp hcut
          refine ⟨rfl, ?_⟩
          rw [byteLength_cons]
          omega
        · rintro ⟨htext, hlen⟩
          cases before with
          | nil => simp at hlen
          | cons d before =>
            obtain ⟨rfl, rfl⟩ := List.cons.inj htext
            rw [byteLength_cons] at hlen
            exact ⟨before, after, ih.mpr ⟨rfl, by omega⟩, rfl, rfl⟩
      · rename_i hlt
        simp only [reduceCtorEq, false_iff]
        rintro ⟨htext, hlen⟩
        cases before with
        | nil => simp at hlen
        | cons d before =>
          obtain ⟨rfl, rfl⟩ := List.cons.inj htext
          rw [byteLength_cons] at hlen
          omega

/-- A slice is a part of the text that begins after `start` bytes and ends
after `stop` bytes. -/
theorem slice?_eq_some_iff {text middle : List Char} {start stop : Nat} :
    slice? text start stop = some middle ↔
      ∃ before after, text = before ++ (middle ++ after) ∧ byteLength before = start ∧
        start + byteLength middle = stop := by
  unfold slice?
  split
  · rename_i hle
    simp only [Option.bind_eq_bind, Option.bind_eq_some_iff, Prod.exists, cut?_eq_some_iff,
      Option.pure_def, Option.some.injEq]
    constructor
    · rintro ⟨before, rest, ⟨rfl, hb⟩, part, after, ⟨rfl, hm⟩, rfl⟩
      exact ⟨before, after, rfl, hb, by omega⟩
    · rintro ⟨before, after, rfl, hb, hm⟩
      exact ⟨before, middle ++ after, ⟨rfl, hb⟩, middle, after, ⟨rfl, by omega⟩, rfl⟩
  · rename_i hlt
    simp only [reduceCtorEq, false_iff]
    rintro ⟨before, after, -, -, hm⟩
    omega

end Dataflow
