import Mathlib.Data.List.DropRight
import UmkaSyntax.Proofs.Source.Lines
import UmkaSyntax.Proofs.Source.Utf8

namespace UmkaSyntax

/-- The place comes first when one reads line by line. -/
def Position.Before (p q : Position) : Prop :=
  p.line < q.line ∨ p.line = q.line ∧ p.column < q.column

namespace LineTable

def offset (table : LineTable) (p : Position) : Nat :=
  table.starts.getD (p.line - 1) 0 + (p.column - 1)

/-- What a table says of the lines and the bytes of its source. -/
structure Exact (table : LineTable) (source : String) : Prop where
  place : ∀ offset ≤ source.utf8ByteSize,
    let before := source.toUTF8.data.toList.take offset
    table.position offset = ⟨1 + before.count newlineByte,
      1 + (before.rtakeWhile (· != newlineByte)).length⟩
  increasing : ∀ first second, first < second → second ≤ source.utf8ByteSize →
    (table.position first).Before (table.position second)
  recovered : ∀ offset ≤ source.utf8ByteSize, table.offset (table.position offset) = offset
  words : (∀ start ∈ table.starts, start < UInt32.size) ∧
    ∀ offset ≤ source.utf8ByteSize, (table.position offset).line < UInt32.size ∧
      (table.position offset).column < UInt32.size
  line_isSome : ∀ line, (table.line? source.toList line).isSome ↔ 1 ≤ line ∧ line ≤ table.count
  single : ∀ line text, table.line? source.toList line = some text → '\n' ∉ text
  joined : ['\n'].intercalate ((List.range' 1 table.count).filterMap (table.line? source.toList)) =
    source.toList
  byte : ∀ offset ≤ source.utf8ByteSize, ∃ text,
    table.line? source.toList (table.position offset).line = some text ∧
      (offset = source.utf8ByteSize ∨
        source.toUTF8.data.toList[offset]? = some newlineByte ∨
        ∃ byte, source.toUTF8.data.toList[offset]? = some byte ∧
          (utf8 text)[(table.position offset).column - 1]? = some byte)

end LineTable

theorem exists_cut {cs : List Char} {offset : Nat} (inside : offset ≤ byteLength cs) :
    ∃ before after, cs = before ++ after ∧ byteLength before ≤ offset ∧
      (after = [] → offset = byteLength before) ∧
      ∀ c more, after = c :: more → offset < byteLength before + c.utf8Size := by
  induction cs generalizing offset with
  | nil => exact ⟨[], [], rfl, Nat.zero_le _, fun _ => Nat.le_zero.mp inside, by simp⟩
  | cons c cs ih =>
      by_cases here : offset < c.utf8Size
      · refine ⟨[], c :: cs, rfl, Nat.zero_le _, by simp, ?_⟩
        rintro d more eq
        obtain ⟨rfl, -⟩ := List.cons.inj eq
        simpa [byteLength] using here
      · rw [byteLength] at inside
        obtain ⟨before, after, rfl, le, ends, stays⟩ := @ih (offset - c.utf8Size) (by omega)
        refine ⟨c :: before, after, rfl, ?_, fun none => ?_, fun d more eq => ?_⟩
        · rw [byteLength]
          omega
        · have := ends none
          rw [byteLength]
          omega
        · have := stays d more eq
          rw [byteLength]
          omega

theorem exists_line_of_offset {cs : List Char} {offset : Nat} (inside : offset ≤ byteLength cs) :
    ∃ front line rest column, IsLine cs front line rest ∧ column ≤ byteLength line ∧
      offset = byteLength front + column := by
  obtain ⟨before, after, rfl, le, ends, stays⟩ := exists_cut inside
  obtain ⟨front, rest, left, right, isLine⟩ := exists_isLine before after
  have size : byteLength before = byteLength front + byteLength (lastLine before) := by
    rw [← byteLength_append, ← left]
  refine ⟨front, _, rest, offset - byteLength front, isLine, ?_, by omega⟩
  rw [byteLength_append]
  cases after with
  | nil =>
      have := ends rfl
      omega
  | cons c more =>
      have within := stays c more rfl
      by_cases newline : c = '\n'
      · have one : c.utf8Size = 1 := newline ▸ rfl
        omega
      · have first : firstLine (c :: more) = c :: firstLine more := by simp [firstLine, newline]
        rw [first, byteLength]
        omega

namespace IsLine

variable {cs front line rest : List Char} {column : Nat}

theorem take_utf8 (isLine : IsLine cs front line rest) (inside : column ≤ byteLength line) :
    (utf8 cs).take (byteLength front + column) = utf8 front ++ (utf8 line).take column := by
  rw [isLine.whole, utf8_append, utf8_append, List.append_assoc, ← length_utf8,
    List.take_length_add_append, List.take_append_of_le_length (by rwa [length_utf8])]

theorem newlineByte_notMem (isLine : IsLine cs front line rest) :
    newlineByte ∉ (utf8 line).take column :=
  fun mem => isLine.single (newline_mem_utf8 (List.mem_of_mem_take mem))

theorem count_take_utf8 (isLine : IsLine cs front line rest) (inside : column ≤ byteLength line) :
    ((utf8 cs).take (byteLength front + column)).count newlineByte = front.count '\n' := by
  rw [isLine.take_utf8 inside, List.count_append, count_newline_utf8,
    List.count_eq_zero_of_not_mem isLine.newlineByte_notMem, Nat.add_zero]

theorem rtakeWhile_utf8 (isLine : IsLine cs front line rest) (inside : column ≤ byteLength line) :
    ((utf8 cs).take (byteLength front + column)).rtakeWhile (· != newlineByte) =
      (utf8 line).take column := by
  have bytes : ∀ b ∈ ((utf8 line).take column).reverse, (b != newlineByte) = true := by
    intro b mem
    rw [List.mem_reverse] at mem
    simpa using fun eq : b = newlineByte => isLine.newlineByte_notMem (eq ▸ mem)
  rw [isLine.take_utf8 inside, List.rtakeWhile, List.reverse_append,
    List.takeWhile_append_of_pos bytes]
  rcases isLine.starts with rfl | last
  · simp [utf8]
  · obtain ⟨before, rfl⟩ := List.getLast?_eq_some_iff.mp last
    have newline : utf8 ['\n'] = [newlineByte] := rfl
    rw [utf8_append, newline, List.reverse_append]
    simp

theorem count_newlines (isLine : IsLine cs front line rest) :
    cs.count '\n' = front.count '\n' + rest.count '\n' := by
  rw [isLine.whole, List.count_append, List.count_append,
    List.count_eq_zero_of_not_mem isLine.single, Nat.add_zero]

theorem start (isLine : IsLine cs front line rest) :
    (LineTable.ofText cs).starts.getD (front.count '\n') 0 = byteLength front := by
  obtain ⟨earlier, starts, length, -⟩ := isLine.starts_eq
  rw [starts, ← length, List.getD_eq_getElem?_getD, List.getElem?_append_right (Nat.le_refl _)]
  simp

theorem next {more : List Char} (isLine : IsLine cs front line ('\n' :: more)) : ∃ rest,
    more = firstLine more ++ rest ∧ IsLine cs (front ++ line ++ ['\n']) (firstLine more) rest := by
  obtain ⟨rest, split, ends⟩ := firstLine_append more
  refine ⟨rest, split, ?_, .inr (by simp), newline_not_mem_firstLine more, ends⟩
  rw [isLine.whole, List.append_assoc _ (firstLine more), ← split]
  simp

theorem rest_eq_cons (isLine : IsLine cs front line rest) (later : 0 < rest.count '\n') :
    ∃ more, rest = '\n' :: more := by
  rcases isLine.ends with rfl | newline
  · simp at later
  · exact List.head?_eq_some_iff.mp newline

theorem rest_eq_nil (isLine : IsLine cs front line rest) (last : rest.count '\n' = 0) :
    rest = [] := by
  rcases isLine.ends with rfl | newline
  · rfl
  · obtain ⟨more, rfl⟩ := List.head?_eq_some_iff.mp newline
    simp at last

end IsLine

theorem exists_first_line (cs : List Char) : ∃ rest, IsLine cs [] (firstLine cs) rest := by
  obtain ⟨rest, split, ends⟩ := firstLine_append cs
  exact ⟨rest, split, .inl rfl, newline_not_mem_firstLine cs, ends⟩

theorem exists_line_numbered {cs : List Char} {n : Nat} (enough : n ≤ cs.count '\n') :
    ∃ front line rest, IsLine cs front line rest ∧ front.count '\n' = n := by
  induction n with
  | zero =>
      obtain ⟨rest, isLine⟩ := exists_first_line cs
      exact ⟨[], _, rest, isLine, rfl⟩
  | succ n ih =>
      obtain ⟨front, line, rest, isLine, count⟩ := ih (Nat.le_of_succ_le enough)
      have total := isLine.count_newlines
      obtain ⟨more, rfl⟩ := isLine.rest_eq_cons (by omega)
      obtain ⟨rest, -, next⟩ := isLine.next
      refine ⟨_, _, rest, next, ?_⟩
      rw [List.count_append, List.count_append, List.count_eq_zero_of_not_mem isLine.single, count]
      rfl

namespace LineTable

theorem count_ofText (cs : List Char) : (ofText cs).count = cs.count '\n' + 1 := by
  rw [count, ofText, List.length_cons, length_startsAfter]

theorem exists_line {cs : List Char} {number : Nat} (first : 1 ≤ number)
    (last : number ≤ (ofText cs).count) :
    ∃ front line rest, IsLine cs front line rest ∧ number = front.count '\n' + 1 := by
  rw [count_ofText] at last
  obtain ⟨front, line, rest, isLine, count⟩ := @exists_line_numbered cs (number - 1) (by omega)
  exact ⟨front, line, rest, isLine, by omega⟩

theorem line?_isSome_iff (cs : List Char) (number : Nat) :
    ((ofText cs).line? cs number).isSome ↔ 1 ≤ number ∧ number ≤ (ofText cs).count := by
  constructor
  · intro found
    by_contra outside
    rw [line?] at found
    rcases Nat.eq_zero_or_pos number with rfl | positive
    · split at found <;> simp at found
    · have beyond : (ofText cs).starts.drop (number - 1) = [] := by
        refine List.drop_eq_nil_of_le ?_
        change (ofText cs).count ≤ _
        omega
      rw [beyond] at found
      simp at found
  · rintro ⟨first, last⟩
    obtain ⟨front, line, rest, isLine, rfl⟩ := exists_line first last
    rw [isLine.line?]
    rfl

theorem intercalate_from {cs front line rest : List Char} (isLine : IsLine cs front line rest) :
    ['\n'].intercalate ((List.range' (front.count '\n' + 1) (rest.count '\n' + 1)).filterMap
      ((ofText cs).line? cs)) = line ++ rest := by
  generalize later : rest.count '\n' = n
  induction n generalizing front line rest with
  | zero =>
      obtain rfl := isLine.rest_eq_nil later
      simp [List.range'_succ, isLine.line?]
  | succ n ih =>
      obtain ⟨more, rfl⟩ := isLine.rest_eq_cons (by omega)
      obtain ⟨rest, split, next⟩ := isLine.next
      have number : (front ++ line ++ ['\n']).count '\n' = front.count '\n' + 1 := by
        rw [List.count_append, List.count_append, List.count_eq_zero_of_not_mem isLine.single]
        rfl
      have fewer : rest.count '\n' = n := by
        have total := next.count_newlines
        have total' := isLine.count_newlines
        omega
      have behind := ih next fewer
      have second := next.line?
      rw [number] at behind second
      rw [List.range'_succ, List.filterMap_cons_some second] at behind
      rw [List.range'_succ, List.filterMap_cons_some isLine.line?, List.range'_succ,
        List.filterMap_cons_some second, List.intercalate_cons_cons, behind, ← split]
      simp

theorem intercalate_lines (cs : List Char) :
    ['\n'].intercalate ((List.range' 1 (ofText cs).count).filterMap ((ofText cs).line? cs)) = cs := by
  obtain ⟨rest, isLine⟩ := exists_first_line cs
  have lines := intercalate_from isLine
  have later : rest.count '\n' + 1 = (ofText cs).count := by
    rw [count_ofText, isLine.count_newlines, List.count_nil, Nat.zero_add]
  rw [later, List.count_nil, Nat.zero_add] at lines
  rw [lines]
  exact isLine.whole.symm

end LineTable

namespace LineTable

variable {cs : List Char} {offset : Nat}

theorem position_eq_count (small : byteLength cs < UInt32.size) (inside : offset ≤ byteLength cs) :
    (ofText cs).position offset = ⟨1 + ((utf8 cs).take offset).count newlineByte,
      1 + (((utf8 cs).take offset).rtakeWhile (· != newlineByte)).length⟩ := by
  obtain ⟨front, line, rest, column, isLine, within, rfl⟩ := exists_line_of_offset inside
  rw [isLine.position small within, isLine.count_take_utf8 within, isLine.rtakeWhile_utf8 within,
    List.length_take, length_utf8, Nat.min_eq_left within, Nat.add_comm, Nat.add_comm column]

theorem offset_position (small : byteLength cs < UInt32.size) (inside : offset ≤ byteLength cs) :
    (ofText cs).offset ((ofText cs).position offset) = offset := by
  obtain ⟨front, line, rest, column, isLine, within, rfl⟩ := exists_line_of_offset inside
  rw [isLine.position small within, LineTable.offset, Nat.add_sub_cancel, isLine.start,
    Nat.add_sub_cancel]

theorem position_before (small : byteLength cs < UInt32.size) {first second : Nat}
    (lt : first < second) (inside : second ≤ byteLength cs) :
    ((ofText cs).position first).Before ((ofText cs).position second) := by
  have before : first ≤ byteLength cs := by omega
  have lines : ((ofText cs).position first).line ≤ ((ofText cs).position second).line := by
    rw [position_eq_count small before, position_eq_count small inside]
    exact Nat.add_le_add_left
      ((List.take_prefix_take_left (Nat.le_of_lt lt)).sublist.count_le newlineByte) 1
  rcases Nat.lt_or_eq_of_le lines with less | same
  · exact .inl less
  · have one := offset_position small before
    have two := offset_position small inside
    rw [LineTable.offset] at one two
    rw [← same] at two
    exact .inr ⟨same, by omega⟩

theorem position_words (small : byteLength cs < UInt32.size - 1) (inside : offset ≤ byteLength cs) :
    ((ofText cs).position offset).line < UInt32.size ∧
      ((ofText cs).position offset).column < UInt32.size := by
  have length : ((utf8 cs).take offset).length ≤ offset := by
    rw [List.length_take]
    exact Nat.min_le_left ..
  have count := List.count_le_length (a := newlineByte) (l := (utf8 cs).take offset)
  have behind := (List.rtakeWhile_suffix (· != newlineByte) ((utf8 cs).take offset)).length_le
  rw [position_eq_count (by omega) inside]
  constructor <;> dsimp only <;> omega

theorem byte_at (small : byteLength cs < UInt32.size) (inside : offset ≤ byteLength cs) :
    ∃ text, (ofText cs).line? cs ((ofText cs).position offset).line = some text ∧
      (offset = byteLength cs ∨ (utf8 cs)[offset]? = some newlineByte ∨
        ∃ byte, (utf8 cs)[offset]? = some byte ∧
          (utf8 text)[((ofText cs).position offset).column - 1]? = some byte) := by
  obtain ⟨front, line, rest, column, isLine, within, rfl⟩ := exists_line_of_offset inside
  rw [isLine.position small within]
  refine ⟨line, isLine.line?, ?_⟩
  have ahead : (utf8 cs)[byteLength front + column]? = (utf8 line ++ utf8 rest)[column]? := by
    rw [isLine.whole, utf8_append, utf8_append, List.append_assoc,
      List.getElem?_append_right (by rw [length_utf8]; omega), length_utf8, Nat.add_sub_cancel_left]
  rw [ahead, Nat.add_sub_cancel]
  rcases Nat.lt_or_eq_of_le within with less | rfl
  · have bound : column < (utf8 line).length := by rwa [length_utf8]
    rw [List.getElem?_append_left bound, List.getElem?_eq_getElem bound]
    exact .inr (.inr ⟨_, rfl, rfl⟩)
  · rcases isLine.ends with rfl | newline
    · exact .inl (by rw [isLine.whole, List.append_nil, byteLength_append])
    · obtain ⟨more, rfl⟩ := List.head?_eq_some_iff.mp newline
      refine .inr (.inl ?_)
      rw [List.getElem?_append_right (by rw [length_utf8]), length_utf8, Nat.sub_self]
      rfl

/-- The table of a source that 32-bit words can measure is exact. -/
theorem ofText_exact (source : String) (small : source.utf8ByteSize < UInt32.size - 1) :
    (ofText source.toList).Exact source := by
  have size := utf8ByteSize_eq_byteLength source
  have fits : byteLength source.toList < UInt32.size := by omega
  constructor
  case place =>
    intro offset le before
    rw [position_eq_count fits (size ▸ le), utf8_toList]
  case increasing =>
    intro first second lt le
    exact position_before fits lt (size ▸ le)
  case recovered =>
    intro offset le
    exact offset_position fits (size ▸ le)
  case words =>
    refine ⟨fun start mem => ?_, fun offset le => position_words (size ▸ small) (size ▸ le)⟩
    rcases List.mem_cons.mp mem with rfl | mem
    · decide
    · have := (startsAfter_bounds mem).2
      omega
  case line_isSome => exact line?_isSome_iff source.toList
  case single =>
    intro number text found
    obtain ⟨first, last⟩ := (line?_isSome_iff source.toList number).mp (by rw [found]; rfl)
    obtain ⟨front, line, rest, isLine, rfl⟩ := exists_line first last
    rw [isLine.line?] at found
    exact Option.some.inj found ▸ isLine.single
  case joined => exact intercalate_lines source.toList
  case byte =>
    intro offset le
    rw [← utf8_toList, size]
    exact byte_at fits (size ▸ le)

/-- Columns count bytes, also inside a letter, and an empty line is a line. -/
theorem accentedLine_exact :
    "é\n\nb".utf8ByteSize < UInt32.size - 1 ∧ (ofText "é\n\nb".toList).Exact "é\n\nb" ∧
      (ofText "é\n\nb".toList).position 1 = ⟨1, 2⟩ ∧
      (ofText "é\n\nb".toList).position 5 = ⟨3, 2⟩ :=
  ⟨by decide +kernel, ofText_exact "é\n\nb" (by decide +kernel), by decide +kernel,
    by decide +kernel⟩

end LineTable

end UmkaSyntax
