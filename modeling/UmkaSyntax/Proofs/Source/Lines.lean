import Mathlib.Data.List.TakeWhile
import UmkaSyntax.Proofs.Source.Layout
import UmkaSyntax.Source.LineTable

namespace UmkaSyntax

structure IsLine (cs front line rest : List Char) : Prop where
  whole : cs = front ++ line ++ rest
  starts : front = [] ∨ front.getLast? = some '\n'
  single : '\n' ∉ line
  ends : rest = [] ∨ rest.head? = some '\n'

theorem newline_not_mem_firstLine (cs : List Char) : '\n' ∉ firstLine cs := fun mem => by
  simpa using List.mem_takeWhile_imp mem

theorem newline_not_mem_lastLine (cs : List Char) : '\n' ∉ lastLine cs := fun mem => by
  rw [lastLine, List.mem_reverse] at mem
  simpa using List.mem_takeWhile_imp mem

theorem firstLine_append (cs : List Char) : ∃ rest, cs = firstLine cs ++ rest ∧
    (rest = [] ∨ rest.head? = some '\n') := by
  refine ⟨cs.dropWhile (· != '\n'), List.takeWhile_append_dropWhile.symm, ?_⟩
  cases stop : cs.dropWhile (· != '\n') with
  | nil => exact .inl rfl
  | cons c rest =>
      have ends := List.head?_dropWhile_not (· != '\n') cs
      rw [stop] at ends
      exact .inr (by simpa using ends)

theorem append_lastLine (cs : List Char) : ∃ front, cs = front ++ lastLine cs ∧
    (front = [] ∨ front.getLast? = some '\n') := by
  obtain ⟨rest, eq, ends⟩ := firstLine_append cs.reverse
  refine ⟨rest.reverse, ?_, ?_⟩
  · rw [lastLine, ← List.reverse_append]
    exact List.reverse_eq_iff.mp eq
  · rw [List.reverse_eq_nil_iff, List.getLast?_reverse]
    exact ends

theorem exists_isLine (before after : List Char) : ∃ front rest,
    before = front ++ lastLine before ∧ after = firstLine after ++ rest ∧
      IsLine (before ++ after) front (lastLine before ++ firstLine after) rest := by
  obtain ⟨front, left, starts⟩ := append_lastLine before
  obtain ⟨rest, right, ends⟩ := firstLine_append after
  refine ⟨front, rest, left, right, ?_, starts, ?_, ends⟩
  · nth_rewrite 1 [left, right]
    simp only [List.append_assoc]
  · simp [newline_not_mem_lastLine, newline_not_mem_firstLine]

theorem firstLine_append_of_single {cs rest : List Char} (single : '\n' ∉ cs)
    (ends : rest = [] ∨ rest.head? = some '\n') : firstLine (cs ++ rest) = cs := by
  have all : ∀ c ∈ cs, (c != '\n') = true := fun c mem => by
    simpa using fun eq : c = '\n' => single (eq ▸ mem)
  rw [firstLine, List.takeWhile_append_of_pos all]
  obtain rfl | newline := ends
  · exact List.append_nil cs
  · obtain ⟨more, rfl⟩ := List.head?_eq_some_iff.mp newline
    simp

theorem lastLine_append_of_single {front cs : List Char} (single : '\n' ∉ cs)
    (starts : front = [] ∨ front.getLast? = some '\n') : lastLine (front ++ cs) = cs := by
  have behind := @firstLine_append_of_single cs.reverse front.reverse (by simpa using single)
    (by simpa [List.head?_reverse] using starts)
  rw [lastLine, List.reverse_append]
  exact List.reverse_eq_iff.mpr behind

theorem withoutReturn_append {cs ds : List Char} (filled : ds ≠ []) :
    withoutReturn (cs ++ ds) = cs ++ withoutReturn ds := by
  rw [withoutReturn, withoutReturn, List.getLast?_append_of_ne_nil cs filled,
    List.dropLast_append_of_ne_nil filled]
  split <;> rfl

namespace LineTable

theorem startsAfter_append (offset : Nat) (cs ds : List Char) :
    startsAfter offset (cs ++ ds) = startsAfter offset cs ++ startsAfter (offset + byteLength cs) ds := by
  induction cs generalizing offset with
  | nil => rfl
  | cons c cs ih =>
      rw [List.cons_append, startsAfter, startsAfter, byteLength]
      split
      next newline =>
        subst newline
        rw [ih, List.cons_append, Nat.add_assoc]
        rfl
      next => rw [ih, Nat.add_assoc]

theorem startsAfter_line {cs : List Char} (single : '\n' ∉ cs) (offset : Nat) :
    startsAfter offset cs = [] := by
  induction cs generalizing offset with
  | nil => rfl
  | cons c cs ih =>
      rw [List.mem_cons, not_or] at single
      rw [startsAfter, if_neg (Ne.symm single.1), ih single.2]

theorem length_startsAfter (offset : Nat) (cs : List Char) :
    (startsAfter offset cs).length = cs.count '\n' := by
  induction cs generalizing offset with
  | nil => rfl
  | cons c cs ih =>
      rw [startsAfter, List.count_cons]
      split
      next newline => simp [newline, ih]
      next other => simp [other, ih]

theorem startsAfter_bounds {offset start : Nat} {cs : List Char} (mem : start ∈ startsAfter offset cs) :
    offset < start ∧ start ≤ offset + byteLength cs := by
  induction cs generalizing offset with
  | nil => cases mem
  | cons c cs ih =>
      have size := c.utf8Size_pos
      rw [startsAfter] at mem
      rw [byteLength]
      split at mem
      next newline =>
        obtain rfl | mem := List.mem_cons.mp mem
        · omega
        · have := ih mem
          have one : c.utf8Size = 1 := newline ▸ rfl
          omega
      next =>
        have := ih mem
        omega

end LineTable

namespace IsLine
open LineTable

variable {cs front line rest : List Char}

theorem starts_eq (isLine : IsLine cs front line rest) : ∃ earlier,
    (LineTable.ofText cs).starts = earlier ++
      byteLength front :: startsAfter (byteLength (front ++ line)) rest ∧
    earlier.length = front.count '\n' ∧ ∀ start ∈ earlier, start ≤ byteLength front := by
  obtain ⟨rfl, starts, single, -⟩ := isLine
  have later : (LineTable.ofText (front ++ line ++ rest)).starts =
      0 :: startsAfter 0 front ++ startsAfter (byteLength (front ++ line)) rest := by
    rw [ofText, startsAfter_append, startsAfter_append, startsAfter_line single, List.append_nil,
      Nat.zero_add]
    rfl
  obtain rfl | last := starts
  · exact ⟨[], later, rfl, by simp⟩
  · obtain ⟨before, rfl⟩ := List.getLast?_eq_some_iff.mp last
    have size : byteLength (before ++ ['\n']) = byteLength before + 1 := byteLength_append _ _
    refine ⟨0 :: startsAfter 0 before, ?_, ?_, ?_⟩
    · rw [later, startsAfter_append, Nat.zero_add, size]
      simp [startsAfter]
    · rw [List.length_cons, length_startsAfter]
      simp
    · intro start mem
      rw [size]
      obtain rfl | mem := List.mem_cons.mp mem
      · omega
      · have := (startsAfter_bounds mem).2
        omega

theorem position (isLine : IsLine cs front line rest) (small : byteLength cs < UInt32.size) {column : Nat}
    (inside : column ≤ byteLength line) :
    (LineTable.ofText cs).position (byteLength front + column) = ⟨front.count '\n' + 1, column + 1⟩ := by
  obtain ⟨earlier, starts, length, bounds⟩ := isLine.starts_eq
  have size : byteLength cs = byteLength front + byteLength line + byteLength rest := by
    rw [isLine.whole, byteLength_append, byteLength_append]
  have word : (byteLength front + column) % UInt32.size = byteLength front + column :=
    Nat.mod_eq_of_lt (by omega)
  have before : earlier.countP (· ≤ byteLength front + column) = earlier.length := by
    rw [List.countP_eq_length]
    intro start mem
    exact decide_eq_true (Nat.le_add_right_of_le (bounds start mem))
  have behind : (startsAfter (byteLength (front ++ line)) rest).countP
      (· ≤ byteLength front + column) = 0 := by
    rw [List.countP_eq_zero]
    intro start mem
    have := (startsAfter_bounds mem).1
    rw [byteLength_append] at this
    simp only [decide_eq_true_eq]
    omega
  have index : (LineTable.ofText cs).starts.countP (· ≤ byteLength front + column) - 1 =
      front.count '\n' := by
    rw [starts, List.countP_append, List.countP_cons, before, behind, length]
    simp
  have start : (LineTable.ofText cs).starts.getD (front.count '\n') 0 = byteLength front := by
    rw [starts, ← length, List.getD_eq_getElem?_getD, List.getElem?_append_right (Nat.le_refl _)]
    simp
  simp only [LineTable.position, word, index, start, Nat.add_sub_cancel_left]

theorem line? (isLine : IsLine cs front line rest) :
    (LineTable.ofText cs).line? cs (front.count '\n' + 1) = some line := by
  obtain ⟨earlier, starts, length, -⟩ := isLine.starts_eq
  have from_here : (LineTable.ofText cs).starts.drop (front.count '\n' + 1 - 1) =
      byteLength front :: startsAfter (byteLength (front ++ line)) rest := by
    rw [starts, Nat.add_sub_cancel, ← length]
    exact List.drop_left
  have slice := slice?_append front line rest
  rw [← isLine.whole] at slice
  rw [LineTable.line?, from_here]
  simp only [Nat.succ_ne_zero, if_false]
  obtain rfl | newline := isLine.ends
  · have size : byteLength cs = byteLength front + byteLength line := by
      rw [isLine.whole, List.append_nil, byteLength_append]
    simpa [startsAfter, size] using slice
  · obtain ⟨more, rfl⟩ := List.head?_eq_some_iff.mp newline
    simpa [startsAfter, byteLength_append] using slice

theorem file_line (isLine : IsLine cs front line rest) (name : String) :
    (SourceFile.ofText name cs).line (front.count '\n' + 1) = withoutReturn line := by
  rw [SourceFile.line, SourceFile.ofText, isLine.line?, Option.getD_some]

end IsLine

theorem LineTable.position_eq {before after : List Char} (small : byteLength (before ++ after) < UInt32.size) :
    (LineTable.ofText (before ++ after)).position (byteLength before) =
      ⟨before.count '\n' + 1, byteLength (lastLine before) + 1⟩ := by
  obtain ⟨front, rest, left, -, isLine⟩ := exists_isLine before after
  have inside : byteLength (lastLine before) ≤ byteLength (lastLine before ++ firstLine after) := by
    rw [byteLength_append]
    exact Nat.le_add_right _ _
  have place := isLine.position small inside
  rw [← byteLength_append, ← left] at place
  have newlines : before.count '\n' = front.count '\n' := by
    nth_rewrite 1 [left]
    rw [List.count_append, List.count_eq_zero_of_not_mem (newline_not_mem_lastLine before), Nat.add_zero]
  rw [place, newlines]

theorem SourceFile.line_eq (name : String) (before after : List Char) :
    (SourceFile.ofText name (before ++ after)).line (before.count '\n' + 1) =
      withoutReturn (lastLine before ++ firstLine after) := by
  obtain ⟨front, rest, left, -, isLine⟩ := exists_isLine before after
  have newlines : before.count '\n' = front.count '\n' := by
    nth_rewrite 1 [left]
    rw [List.count_append, List.count_eq_zero_of_not_mem (newline_not_mem_lastLine before), Nat.add_zero]
  rw [newlines, isLine.file_line]

end UmkaSyntax
