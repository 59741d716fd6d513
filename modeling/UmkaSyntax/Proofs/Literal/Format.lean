import UmkaSyntax.Literal.Segment
import UmkaSyntax.Proofs.Lexing.Longest

namespace UmkaSyntax.Segment

def IsFlag (cs : List Char) : Prop := cs = [] ∨ ∃ c ∈ "-+ \t\r\x0b\x0c#0".toList, cs = [c]

def IsWidth (cs : List Char) : Prop := cs = ['*'] ∨ ∀ d ∈ cs, d.isDigit = true

def IsPrecision (cs : List Char) : Prop :=
  cs = [] ∨ ∃ ds, cs = '.' :: ds ∧ ∀ d ∈ ds, d.isDigit = true

def IsSize (cs : List Char) : Prop := cs ∈ [[], ['h', 'h'], ['h'], ['l', 'l'], ['l']]

/-- A percent sign; perhaps a flag; a star or digits; a point and digits; a size; and in the end a
conversion. -/
inductive IsFormat : List Char → Prop
  | intro {flag width precision size : List Char} {c : Char} :
      IsFlag flag → IsWidth width → IsPrecision precision → IsSize size →
      c ∈ "diuxXfFeEgGscv%".toList →
      IsFormat ('%' :: (flag ++ (width ++ (precision ++ (size ++ [c])))))

def StartsFormat (cs : List Char) : Prop := ∃ more, IsFormat (cs ++ more)

/-- The text has the property, but not together with the character behind it. -/
def Stops (P : List Char → Prop) (text rest : List Char) : Prop :=
  P text ∧ ∀ c ∈ rest.head?, ¬P (text ++ [c])

theorem exists_stops {P : List Char → Prop} {text : List Char} (holds : P text) (cs : List Char) :
    ∃ more rest, cs = more ++ rest ∧ Stops P (text ++ more) rest := by
  induction cs generalizing text with
  | nil => exact ⟨[], [], rfl, by simpa [Stops] using holds⟩
  | cons c cs ih =>
      by_cases longer : P (text ++ [c])
      · obtain ⟨more, rest, rfl, stops⟩ := ih longer
        exact ⟨c :: more, rest, rfl, by simpa using stops⟩
      · exact ⟨[], c :: cs, rfl, by simpa [Stops] using ⟨holds, longer⟩⟩

theorem Stops.congr {P : List Char → Prop} {text rest other : List Char}
    (same : rest.head? = other.head?) (stops : Stops P text rest) : Stops P text other :=
  ⟨stops.1, same ▸ stops.2⟩

theorem isFormatFlag_iff {c : Char} : isFormatFlag c = true ↔ c ∈ "-+ \t\r\x0b\x0c#0".toList :=
  List.contains_iff_mem

theorem isConversion_iff {c : Char} : isConversion c = true ↔ c ∈ "diuxXfFeEgGscv%".toList :=
  List.contains_iff_mem

theorem Stops.flagLength {flag rest : List Char} (stops : Stops IsFlag flag rest) :
    flagLength (flag ++ rest) = flag.length := by
  obtain ⟨rfl | ⟨c, isFlag, rfl⟩, next⟩ := stops
  · cases rest with
    | nil => rfl
    | cons c rest =>
        have other : ¬isFormatFlag c = true := fun isFlag =>
          next c rfl (.inr ⟨c, isFormatFlag_iff.mp isFlag, rfl⟩)
        exact if_neg other
  · exact if_pos (isFormatFlag_iff.mpr isFlag)

theorem Stops.widthLength {width rest : List Char} (stops : Stops IsWidth width rest) :
    widthLength (width ++ rest) = width.length := by
  obtain ⟨rfl | digits, next⟩ := stops
  · rfl
  · have run : runLength Char.isDigit (width ++ rest) = width.length := by
      rw [runLength_append digits]
      cases rest with
      | nil => rfl
      | cons c rest =>
          rw [runLength_cons_neg (Bool.eq_false_iff.mpr fun digit => next c rfl (.inr ?_)), Nat.add_zero]
          simpa [or_imp, forall_and] using ⟨digits, digit⟩
    rw [Segment.widthLength.eq_2 _ ?_, run]
    intro more star
    cases width with
    | nil => exact next '*' (by rw [List.nil_append] at star; rw [star]; rfl) (.inl rfl)
    | cons d width =>
        obtain ⟨rfl, -⟩ := List.cons.inj star
        exact absurd (digits '*' List.mem_cons_self) (by decide)

theorem Stops.precisionLength {precision rest : List Char}
    (stops : Stops IsPrecision precision rest) :
    precisionLength (precision ++ rest) = precision.length := by
  obtain ⟨rfl | ⟨ds, rfl, digits⟩, next⟩ := stops
  · refine Segment.precisionLength.eq_2 _ fun more point => ?_
    rw [List.nil_append] at point
    exact next '.' (by rw [point]; rfl) (.inr ⟨[], rfl, by simp⟩)
  · rw [List.cons_append, Segment.precisionLength, runLength_append digits]
    cases rest with
    | nil => rfl
    | cons c rest =>
        rw [runLength_cons_neg (Bool.eq_false_iff.mpr fun digit =>
          next c rfl (.inr ⟨ds ++ [c], rfl, ?_⟩))]
        · rfl
        · simpa [or_imp, forall_and] using ⟨digits, digit⟩

theorem Stops.sizeLength {size rest : List Char} (stops : Stops IsSize size rest) :
    sizeLength (size ++ rest) = size.length := by
  obtain ⟨isSize, next⟩ := stops
  simp only [IsSize, List.mem_cons, List.not_mem_nil, or_false] at isSize
  cases rest with
  | nil => obtain rfl | rfl | rfl | rfl | rfl := isSize <;> rfl
  | cons c rest =>
      have other := next c rfl
      simp only [IsSize, List.mem_cons, List.not_mem_nil, or_false, not_or] at other
      obtain rfl | rfl | rfl | rfl | rfl := isSize <;>
        simp_all [Segment.sizeLength]

inductive Front : List Char → List Char → Prop
  | intro {flag width precision size rest : List Char} :
      Stops IsFlag flag (width ++ (precision ++ (size ++ rest))) →
      Stops IsWidth width (precision ++ (size ++ rest)) →
      Stops IsPrecision precision (size ++ rest) → Stops IsSize size rest →
      Front (flag ++ (width ++ (precision ++ size))) rest

theorem exists_front (cs : List Char) : ∃ text rest, cs = text ++ rest ∧ Front text rest := by
  obtain ⟨flag, cs, rfl, first⟩ := exists_stops (show IsFlag [] from .inl rfl) cs
  obtain ⟨width, cs, rfl, second⟩ := exists_stops (show IsWidth [] from .inr (by simp)) cs
  obtain ⟨precision, cs, rfl, third⟩ := exists_stops (show IsPrecision [] from .inl rfl) cs
  obtain ⟨size, rest, rfl, fourth⟩ := exists_stops (show IsSize [] by simp [IsSize]) cs
  exact ⟨_, rest, by simp only [List.append_assoc, List.nil_append], .intro first second third fourth⟩

theorem Front.congr {text rest : List Char} {c : Char} (front : Front text (c :: rest))
    (other : List Char) :
    Front text (c :: other) := by
  obtain ⟨first, second, third, fourth⟩ := front
  have same : ∀ cs : List Char, (cs ++ c :: rest).head? = (cs ++ c :: other).head? := by
    rintro (_ | ⟨d, cs⟩) <;> rfl
  refine .intro (first.congr ?_) (second.congr ?_) (third.congr (same _)) (fourth.congr rfl)
  · simpa only [List.append_assoc] using same (_ ++ (_ ++ _))
  · simpa only [List.append_assoc] using same (_ ++ _)

theorem Front.formatLength {text rest : List Char} : Front text rest →
    formatLength (text ++ rest) =
      match rest with
      | [] => .error text.length
      | c :: _ => if isConversion c then .ok (text.length + 1) else .error (text.length + 1) := by
  rintro ⟨first, second, third, fourth⟩
  cases rest <;>
    simp only [Segment.formatLength, List.append_assoc, first.flagLength, List.drop_left,
      second.widthLength, third.precisionLength, fourth.sizeLength, ← List.drop_drop,
      List.length_append, Nat.add_assoc]

theorem Front.isFormat {text rest : List Char} (front : Front text rest) {c : Char}
    (conversion : isConversion c = true) : IsFormat ('%' :: (text ++ [c])) := by
  obtain ⟨first, second, third, fourth⟩ := front
  simpa only [List.append_assoc] using
    IsFormat.intro first.1 second.1 third.1 fourth.1 (isConversion_iff.mp conversion)

theorem Front.starts {text rest : List Char} (front : Front text rest) :
    StartsFormat ('%' :: text) :=
  ⟨['d'], front.isFormat rfl⟩

theorem head_size {size : List Char} (isSize : IsSize size) {c : Char}
    (conversion : c ∈ "diuxXfFeEgGscv%".toList) :
    ∀ d ∈ (size ++ [c]).head?, d ∈ "hldiuxXfFeEgGscv%".toList := by
  simp only [IsSize, List.mem_cons, List.not_mem_nil, or_false] at isSize
  obtain rfl | rfl | rfl | rfl | rfl := isSize
  · rintro d ⟨⟩
    exact List.mem_append_right ['h', 'l'] conversion
  all_goals
    rintro d ⟨⟩
    decide

theorem head_precision {precision : List Char} (isPrecision : IsPrecision precision)
    {rest : List Char} (later : ∀ d ∈ rest.head?, d ∈ "hldiuxXfFeEgGscv%".toList) :
    ∀ d ∈ (precision ++ rest).head?, d ∈ ".hldiuxXfFeEgGscv%".toList := by
  obtain rfl | ⟨ds, rfl, -⟩ := isPrecision
  · exact fun d mem => List.mem_append_right ['.'] (later d mem)
  · rintro d ⟨⟩
    decide

theorem stops_size {size : List Char} (isSize : IsSize size) {c : Char}
    (conversion : c ∈ "diuxXfFeEgGscv%".toList) : Stops IsSize size [c] := by
  refine ⟨isSize, ?_⟩
  rintro d ⟨⟩
  have other : ∀ c ∈ "diuxXfFeEgGscv%".toList, c ≠ 'h' ∧ c ≠ 'l' :=
    List.forall_iff_forall_mem.mp (by decide)
  obtain ⟨noH, noL⟩ := other c conversion
  simp only [IsSize, List.mem_cons, List.not_mem_nil, or_false] at isSize
  obtain rfl | rfl | rfl | rfl | rfl := isSize <;> simp [IsSize, noH, noL]

theorem stops_precision {precision rest : List Char} (isPrecision : IsPrecision precision)
    (later : ∀ d ∈ rest.head?, d ∈ "hldiuxXfFeEgGscv%".toList) :
    Stops IsPrecision precision rest := by
  refine ⟨isPrecision, fun d mem longer => ?_⟩
  have other : ∀ c ∈ "hldiuxXfFeEgGscv%".toList, c ≠ '.' ∧ ¬c.isDigit = true :=
    List.forall_iff_forall_mem.mp (by decide)
  obtain ⟨noPoint, noDigit⟩ := other d (later d mem)
  obtain none | ⟨ds, eq, digits⟩ := longer
  · simp at none
  · obtain rfl | ⟨es, rfl, -⟩ := isPrecision
    · exact noPoint (List.cons.inj eq).1
    · obtain rfl := (List.cons.inj eq).2
      exact noDigit (digits d (by simp))

theorem stops_width {width rest : List Char} (isWidth : IsWidth width)
    (later : ∀ d ∈ rest.head?, d ∈ ".hldiuxXfFeEgGscv%".toList) : Stops IsWidth width rest := by
  refine ⟨isWidth, fun d mem longer => ?_⟩
  have other : ∀ c ∈ ".hldiuxXfFeEgGscv%".toList, c ≠ '*' ∧ ¬c.isDigit = true :=
    List.forall_iff_forall_mem.mp (by decide)
  obtain ⟨noStar, noDigit⟩ := other d (later d mem)
  obtain star | digits := longer
  · exact noStar (List.singleton_inj.mp (List.append_inj' (star.trans (List.nil_append _).symm) rfl).2)
  · exact noDigit (digits d (by simp))

theorem stops_flag (c : Char) (isFlag : IsFlag [c]) (rest : List Char) : Stops IsFlag [c] rest := by
  refine ⟨isFlag, fun d _ longer => ?_⟩
  obtain none | ⟨e, -, eq⟩ := longer
  · cases none
  · cases eq

theorem isFlag_singleton {c : Char} : IsFlag [c] ↔ c ∈ "-+ \t\r\x0b\x0c#0".toList := by
  simp only [IsFlag, List.cons_ne_nil, List.singleton_inj, false_or, exists_eq_right']

/-- A flag and a width are read with each as long as it goes: a zero that opens the digits is the
flag then. -/
theorem exists_flag_width {flag width rest : List Char} (isFlag : IsFlag flag)
    (isWidth : IsWidth width) (later : ∀ d ∈ rest.head?, d ∈ ".hldiuxXfFeEgGscv%".toList) :
    ∃ first second, flag ++ width = first ++ second ∧ Stops IsFlag first (second ++ rest) ∧
      Stops IsWidth second rest := by
  have whole := stops_width isWidth later
  obtain rfl | ⟨c, mem, rfl⟩ := isFlag
  · cases width with
    | nil =>
        have apart : ∀ d ∈ ".hldiuxXfFeEgGscv%".toList, d ∉ "-+ \t\r\x0b\x0c#0".toList :=
          List.forall_iff_forall_mem.mp (by decide)
        exact ⟨[], [], rfl, ⟨.inl rfl, fun d head longer =>
          apart d (later d head) (isFlag_singleton.mp longer)⟩, whole⟩
    | cons e width =>
        by_cases opens : IsFlag [e]
        · obtain star | digits := isWidth
          · obtain rfl := (List.cons.inj star).1
            exact absurd (isFlag_singleton.mp opens) (by decide)
          · have fewer : IsWidth width := .inr fun d mem => digits d (List.mem_cons_of_mem _ mem)
            exact ⟨[e], width, rfl, stops_flag e opens _, stops_width fewer later⟩
        · exact ⟨[], e :: width, rfl, ⟨.inl rfl, by rintro d ⟨⟩; exact opens⟩, whole⟩
  · exact ⟨[c], width, rfl, stops_flag c (isFlag_singleton.mpr mem) _, whole⟩

theorem IsFormat.exists_front {text : List Char} (format : IsFormat ('%' :: text)) :
    ∃ front c, text = front ++ [c] ∧ isConversion c = true ∧ Front front [c] := by
  generalize whole : '%' :: text = cs at format
  obtain @⟨flag, width, precision, size, c, isFlag, isWidth, isPrecision, isSize, conversion⟩ :=
    format
  obtain rfl := (List.cons.inj whole).2
  have sized := head_size isSize conversion
  obtain ⟨flag', width', both, first, second⟩ :=
    exists_flag_width isFlag isWidth (head_precision isPrecision sized)
  refine ⟨flag' ++ (width' ++ (precision ++ size)), c, ?_, isConversion_iff.mpr conversion, ?_⟩
  · rw [← List.append_assoc, both]
    simp only [List.append_assoc]
  · exact .intro first second (stops_precision isPrecision sized) (stops_size isSize conversion)

theorem IsFormat.formatLength {text : List Char} (format : IsFormat ('%' :: text))
    (rest : List Char) : formatLength (text ++ rest) = .ok text.length := by
  obtain ⟨front, c, rfl, conversion, stands⟩ := format.exists_front
  have length := (stands.congr rest).formatLength
  rw [List.append_assoc, List.singleton_append, length, List.length_append]
  exact if_pos conversion

theorem formatLength_eq_ok {cs : List Char} {n : Nat} :
    Segment.formatLength cs = .ok n ↔ n ≤ cs.length ∧ IsFormat ('%' :: cs.take n) := by
  constructor
  · intro length
    obtain ⟨front, rest, rfl, stands⟩ := Segment.exists_front cs
    rw [stands.formatLength] at length
    cases rest with
    | nil => cases length
    | cons c rest =>
        by_cases conversion : isConversion c = true
        · obtain rfl : front.length + 1 = n := by simpa [conversion] using length
          have end_eq : (front ++ [c]).length = front.length + 1 := List.length_append
          rw [List.append_cons, ← end_eq, List.take_left]
          exact ⟨by simp, stands.isFormat conversion⟩
        · simp [conversion] at length
  · rintro ⟨within, format⟩
    have length := format.formatLength (cs.drop n)
    rwa [List.take_append_drop, List.length_take_of_le within] at length

/-- Where no format sequence stands, the reader goes as far as one could still follow, and one
character further. -/
theorem formatLength_eq_error {cs : List Char} {n : Nat} (broken : Segment.formatLength cs = .error n) :
    (n = cs.length ∧ StartsFormat ('%' :: cs)) ∨
      ∃ front c rest, cs = front ++ c :: rest ∧ n = front.length + 1 ∧
        StartsFormat ('%' :: front) ∧ ¬StartsFormat ('%' :: (front ++ [c])) := by
  obtain ⟨front, rest, rfl, stands⟩ := Segment.exists_front cs
  cases rest with
  | nil =>
      rw [stands.formatLength] at broken
      obtain rfl : front.length = n := Except.error.inj broken
      rw [List.append_nil]
      exact .inl ⟨rfl, stands.starts⟩
  | cons c rest =>
      have here := stands.formatLength
      rw [here] at broken
      by_cases conversion : isConversion c = true
      · simp [conversion] at broken
      · obtain rfl : front.length + 1 = n := by simpa [conversion] using broken
        refine .inr ⟨front, c, rest, rfl, rfl, stands.starts, ?_⟩
        rintro ⟨more, format⟩
        rw [List.cons_append, List.append_assoc, List.singleton_append] at format
        have read := format.formatLength []
        rw [List.append_nil, (stands.congr more).formatLength] at read
        simp [conversion] at read

end UmkaSyntax.Segment
