import UmkaSyntax.Proofs.Literal.Format
import UmkaSyntax.Proofs.Source.Utf8

namespace UmkaSyntax.Segment

theorem IsFlag.ascii {flag : List Char} (isFlag : IsFlag flag) : ∀ c ∈ flag, c.toNat < 128 := by
  have letters : ∀ c ∈ "-+ \t\r\x0b\x0c#0".toList, c.toNat < 128 :=
    List.forall_iff_forall_mem.mp (by decide)
  obtain rfl | ⟨c, mem, rfl⟩ := isFlag
  · simp
  · simpa using letters c mem

theorem ascii_of_isDigit {c : Char} (digit : c.isDigit = true) : c.toNat < 128 := by
  have upTo : c.toNat ≤ 57 := by
    simp only [Char.isDigit, Bool.and_eq_true, decide_eq_true_eq] at digit
    exact UInt32.le_iff_toNat_le.mp digit.2
  omega

theorem IsWidth.ascii {width : List Char} (isWidth : IsWidth width) :
    ∀ c ∈ width, c.toNat < 128 := by
  obtain rfl | digits := isWidth
  · simp
  · exact fun c mem => ascii_of_isDigit (digits c mem)

theorem IsPrecision.ascii {precision : List Char} (isPrecision : IsPrecision precision) :
    ∀ c ∈ precision, c.toNat < 128 := by
  obtain rfl | ⟨ds, rfl, digits⟩ := isPrecision
  · simp
  · exact List.forall_mem_cons.mpr ⟨by decide, fun c mem => ascii_of_isDigit (digits c mem)⟩

theorem IsSize.ascii {size : List Char} (isSize : IsSize size) : ∀ c ∈ size, c.toNat < 128 := by
  simp only [IsSize, List.mem_cons, List.not_mem_nil, or_false] at isSize
  obtain rfl | rfl | rfl | rfl | rfl := isSize <;> simp

theorem ascii_of_isConversion {c : Char} (conversion : isConversion c = true) : c.toNat < 128 := by
  have letters : ∀ c ∈ "diuxXfFeEgGscv%".toList, c.toNat < 128 :=
    List.forall_iff_forall_mem.mp (by decide)
  exact letters c (isConversion_iff.mp conversion)

theorem Front.ascii {text rest : List Char} (front : Front text rest) :
    ∀ c ∈ text, c.toNat < 128 := by
  obtain ⟨first, second, third, fourth⟩ := front
  simp only [List.forall_mem_append]
  exact ⟨first.1.ascii, second.1.ascii, third.1.ascii, fourth.1.ascii⟩

theorem IsFormat.ascii {cs : List Char} (format : IsFormat cs) : ∀ c ∈ cs, c.toNat < 128 := by
  obtain ⟨flag, width, precision, size, conversion⟩ := format
  simp only [List.forall_mem_cons, List.forall_mem_append]
  exact ⟨by decide, flag.ascii, width.ascii, precision.ascii, size.ascii,
    ascii_of_isConversion (isConversion_iff.mpr conversion), by simp⟩

theorem Stops.of_foreign {P : List Char → Prop} {text between rest : List Char} {c d : Char}
    (ascii : ∀ cs, P cs → ∀ c ∈ cs, c.toNat < 128) (stops : Stops P text (between ++ c :: rest))
    (foreign : 128 ≤ d.toNat) (other : List Char) : Stops P text (between ++ d :: other) := by
  cases between with
  | nil =>
      refine ⟨stops.1, ?_⟩
      rintro e ⟨⟩ longer
      exact Nat.not_le_of_lt (ascii _ longer d (by simp)) foreign
  | cons e between => exact stops

theorem Front.of_foreign {text rest : List Char} {c d : Char} (front : Front text (c :: rest))
    (foreign : 128 ≤ d.toNat) (other : List Char) : Front text (d :: other) := by
  obtain ⟨first, second, third, fourth⟩ := front
  have fourth : Stops IsSize _ ([] ++ c :: rest) := fourth
  refine .intro ?_ ?_ (third.of_foreign (fun _ => IsPrecision.ascii) foreign other)
    (fourth.of_foreign (fun _ => IsSize.ascii) foreign other)
  · simp only [← List.append_assoc] at first ⊢
    exact first.of_foreign (fun _ => IsFlag.ascii) foreign other
  · simp only [← List.append_assoc] at second ⊢
    exact second.of_foreign (fun _ => IsWidth.ascii) foreign other

theorem formatLength_utf8 (cs : List Char) :
    Segment.formatLength (byteChars (utf8 cs)) = Segment.formatLength cs := by
  obtain ⟨text, rest, rfl, front⟩ := exists_front cs
  rw [utf8_append, byteChars_append, byteChars_utf8 front.ascii, front.formatLength]
  -- behind the front only the first character counts, and whether it is a conversion
  cases rest with
  | nil => exact front.formatLength
  | cons c rest =>
      obtain ascii | large := Nat.lt_or_ge c.toNat 128
      · have own : byteChars (utf8 (c :: rest)) = c :: byteChars (utf8 rest) := by
          have single : byteChars (utf8 [c]) = [c] := byteChars_utf8 (by simpa using ascii)
          rw [← List.singleton_append, utf8_append, byteChars_append, single, List.singleton_append]
        rw [own, (front.congr _).formatLength]
      · obtain ⟨d, more, eq, foreign⟩ := exists_byteChars_utf8 large rest
        have noConversion : ∀ {c : Char}, 128 ≤ c.toNat → ¬isConversion c = true :=
          fun foreign conversion => Nat.not_le_of_lt (ascii_of_isConversion conversion) foreign
        rw [eq, (front.of_foreign foreign more).formatLength]
        simp only [noConversion large, noConversion foreign]

def percentByte : UInt8 := 37

def IsFormatBytes (bytes : List UInt8) : Prop := IsFormat (byteChars bytes)

def StartsFormatBytes (bytes : List UInt8) : Prop := ∃ more, IsFormatBytes (bytes ++ more)

/-- After so many bytes behind the percent sign no format sequence is possible any more, and it was
up to then; or the string ends before there is one. -/
def BreaksAfter (s : List UInt8) (n : Nat) : Prop :=
  n + 1 ≤ s.length ∧ StartsFormatBytes (s.take n) ∧ ¬StartsFormatBytes (s.take (n + 1)) ∨
    n + 1 = s.length ∧ StartsFormatBytes s

/-- The answer, which does not count the percent sign, tells which front of the string is a format
sequence, or where there can be none. -/
structure Locates (s : List UInt8) (answer : Except Nat Nat) : Prop where
  found : ∀ n, answer = .ok n ↔ n + 1 ≤ s.length ∧ IsFormatBytes (s.take (n + 1))
  alone : ∀ n, answer = .ok n → ∀ m ≤ s.length, IsFormatBytes (s.take m) → m = n + 1
  broken : (∀ m ≤ s.length, ¬IsFormatBytes (s.take m)) →
    ∃ n, answer = .error n ∧ BreaksAfter s n

theorem startsFormatBytes_iff {bytes : List UInt8} :
    StartsFormatBytes bytes ↔ StartsFormat (byteChars bytes) := by
  constructor
  · rintro ⟨more, format⟩
    exact ⟨byteChars more, by rwa [← byteChars_append]⟩
  · rintro ⟨more, format⟩
    have ascii : ∀ c ∈ more, c.toNat < 128 := (List.forall_mem_append.mp format.ascii).2
    refine ⟨utf8 more, ?_⟩
    rwa [IsFormatBytes, byteChars_append, byteChars_utf8 ascii]

theorem byteChars_take (bytes : List UInt8) (n : Nat) :
    byteChars ((percentByte :: bytes).take (n + 1)) = '%' :: (byteChars bytes).take n := by
  rw [List.take_succ_cons, byteChars, List.map_cons, List.map_take]
  rfl

theorem isFormatBytes_take {bytes : List UInt8} {n : Nat} :
    n + 1 ≤ (percentByte :: bytes).length ∧ IsFormatBytes ((percentByte :: bytes).take (n + 1)) ↔
      Segment.formatLength (byteChars bytes) = .ok n := by
  rw [formatLength_eq_ok, IsFormatBytes, byteChars_take, byteChars, List.length_map,
    List.length_cons, Nat.add_le_add_iff_right]

theorem breaksAfter_of_error {bytes : List UInt8} {n : Nat}
    (broken : Segment.formatLength (byteChars bytes) = .error n) :
    BreaksAfter (percentByte :: bytes) n := by
  have length : (byteChars bytes).length = bytes.length := List.length_map _
  obtain ⟨rfl, starts⟩ | ⟨front, c, rest, eq, rfl, starts, stops⟩ := formatLength_eq_error broken
  · exact .inr ⟨by rw [length, List.length_cons], startsFormatBytes_iff.mpr starts⟩
  · have inside : front.length + 1 ≤ bytes.length := by
      rw [← length, eq, List.length_append, List.length_cons]
      omega
    have before : (byteChars bytes).take front.length = front := by rw [eq, List.take_left]
    have upTo : (byteChars bytes).take (front.length + 1) = front ++ [c] := by
      rw [eq, List.take_length_add_append, List.take_succ_cons, List.take_zero]
    refine .inl ⟨Nat.succ_le_succ inside, ?_, ?_⟩
    · rwa [startsFormatBytes_iff, byteChars_take, before]
    · rwa [startsFormatBytes_iff, byteChars_take, upTo]

theorem locates_byteChars (bytes : List UInt8) :
    Locates (percentByte :: bytes) (Segment.formatLength (byteChars bytes)) where
  found _ := isFormatBytes_take.symm
  alone n isRead m within format := by
    cases m with
    | zero => nomatch (show IsFormat [] from format)
    | succ m =>
        have same := isFormatBytes_take.mp ⟨within, format⟩
        rw [isRead] at same
        rw [Except.ok.inj same]
  broken none := by
    cases read : Segment.formatLength (byteChars bytes) with
    | ok n =>
        obtain ⟨within, format⟩ := isFormatBytes_take.mpr read
        exact absurd format (none (n + 1) within)
    | error n => exact ⟨n, rfl, breaksAfter_of_error read⟩

/-- Behind a percent sign the reader locates the format sequence, whether it reads a byte string
byte by byte or a text by its characters. -/
theorem formatLength_locates :
    (∀ bytes, Locates (percentByte :: bytes) (Segment.formatLength (byteChars bytes))) ∧
      ∀ cs, Locates (percentByte :: utf8 cs) (Segment.formatLength cs) := by
  refine ⟨locates_byteChars, fun cs => ?_⟩
  rw [← formatLength_utf8]
  exact locates_byteChars (utf8 cs)

end UmkaSyntax.Segment
