import UmkaSyntax.Proofs.Lexing.Grammar
import UmkaSyntax.Proofs.Literal.Format

namespace UmkaSyntax

namespace Segment

inductive IsEscape : List Char → Prop
  | letter {c : Char} : c ∈ "0abefnrtv".toList → IsEscape ['\\', c]
  | short {h : Char} : isHexDigit h = true → IsEscape ['\\', 'x', h]
  | long {h k : Char} : isHexDigit h = true → isHexDigit k = true → IsEscape ['\\', 'x', h, k]

def IsName : List Char → Prop :=
  RunOf (fun c => c.isAlpha = true ∨ c = '_') (fun c => c.isAlphanum = true ∨ c = '_')

inductive Stands (flavor : Flavor) (cs : List Char) : Segment → List Char → Prop
  | escape {text : List Char} : Longest IsEscape cs text → Stands flavor cs .escape text
  | invalidEscape {rest : List Char} :
      cs = '\\' :: rest → (∀ text, text <+: cs → ¬IsEscape text) →
      Stands flavor cs .invalidEscape ('\\' :: rest.take 1)
  | format {text : List Char} :
      flavor = .format → text <+: cs → IsFormat text → Stands flavor cs .format text
  /-- As far as a format sequence could still follow, and the character that rules it out. -/
  | invalidFormat {front rest : List Char} :
      flavor = .format → cs = '%' :: (front ++ rest) → (∀ text, text <+: cs → ¬IsFormat text) →
      Longest StartsFormat cs ('%' :: front) →
      Stands flavor cs .invalidFormat ('%' :: (front ++ rest.take 1))
  | module {name rest : List Char} :
      flavor = .path → cs = name ++ (['.', 'u', 'm'] ++ rest) → Longest IsName cs name →
      Stands flavor cs (.module name.length) (name ++ ['.', 'u', 'm'])
  | name {name : List Char} :
      flavor = .path → Longest IsName cs name → ¬name ++ ['.', 'u', 'm'] <+: cs →
      Stands flavor cs .text name
  | letter {c : Char} {rest : List Char} :
      cs = c :: rest → c ≠ '\\' → (flavor = .format → c ≠ '%') →
      (flavor = .path → ¬(c.isAlpha = true ∨ c = '_')) → Stands flavor cs .text [c]

theorem isEscapeLetter_iff {c : Char} : isEscapeLetter c = true ↔ c ∈ "0abefnrtv".toList :=
  List.contains_iff_mem

theorem not_isEscapeLetter_x : ¬isEscapeLetter 'x' = true := by decide

theorem escapeLength?_letter {c : Char} (letter : isEscapeLetter c = true) (cs : List Char) :
    escapeLength? (c :: cs) = some 1 :=
  if_pos letter

theorem escapeLength?_other {c : Char} (noLetter : ¬isEscapeLetter c = true) (noX : c ≠ 'x')
    (cs : List Char) : escapeLength? (c :: cs) = none := by
  rw [escapeLength?, if_neg noLetter, if_neg noX]

theorem escapeLength?_x (cs : List Char) : escapeLength? ('x' :: cs) =
    match runLength isHexDigit (cs.take 2) with | 0 => none | n + 1 => some (n + 2) :=
  rfl

theorem IsEscape.cases_front {text cs : List Char} (escape : IsEscape text) (front : text <+: '\\' :: cs) :
    (∃ c rest, cs = c :: rest ∧ isEscapeLetter c = true ∧ text.length = 2) ∨
      (∃ h rest, cs = 'x' :: h :: rest ∧ isHexDigit h = true ∧ text.length = 3) ∨
      ∃ h k rest, cs = 'x' :: h :: k :: rest ∧ isHexDigit h = true ∧ isHexDigit k = true ∧
        text.length = 4 := by
  obtain ⟨rest, eq⟩ := front
  cases escape with
  | letter letter => exact .inl ⟨_, rest, (List.cons.inj eq).2.symm, isEscapeLetter_iff.mpr letter, rfl⟩
  | short h => exact .inr (.inl ⟨_, rest, (List.cons.inj eq).2.symm, h, rfl⟩)
  | long h k => exact .inr (.inr ⟨_, _, rest, (List.cons.inj eq).2.symm, h, k, rfl⟩)

theorem runLength_two_eq_zero {h : Char} (noDigit : ¬isHexDigit h = true) (cs : List Char) :
    runLength isHexDigit ((h :: cs).take 2) = 0 := by
  simp [runLength, noDigit]

theorem runLength_two_eq_one {h : Char} {cs : List Char} (first : isHexDigit h = true)
    (alone : ¬∃ k ∈ cs.head?, isHexDigit k = true) :
    runLength isHexDigit ((h :: cs).take 2) = 1 := by
  cases cs with
  | nil => simp [runLength, first]
  | cons k cs =>
      have second : ¬isHexDigit k = true := fun second => alone ⟨k, rfl, second⟩
      simp [runLength, first, second]

theorem runLength_two_eq_two {h k : Char} (first : isHexDigit h = true) (second : isHexDigit k = true)
    (cs : List Char) : runLength isHexDigit ((h :: k :: cs).take 2) = 2 := by
  simp [runLength, first, second]

def EscapeSpec (cs : List Char) : Option Nat → Prop
  | some n => Longest IsEscape ('\\' :: cs) ('\\' :: cs.take n)
  | none => ∀ text, text <+: '\\' :: cs → ¬IsEscape text

theorem front_escape (cs : List Char) (n : Nat) : '\\' :: cs.take n <+: '\\' :: cs :=
  List.cons_prefix_cons.mpr ⟨rfl, List.take_prefix n cs⟩

theorem escapeSpec_x (cs : List Char) : EscapeSpec ('x' :: cs) (escapeLength? ('x' :: cs)) := by
  rcases cs with _ | ⟨h, cs⟩
  · intro text inside escape
    have shape := escape.cases_front inside
    grind [not_isEscapeLetter_x]
  rw [escapeLength?_x]
  by_cases first : isHexDigit h = true
  · by_cases both : ∃ k ∈ cs.head?, isHexDigit k = true
    · obtain ⟨k, head, second⟩ := both
      obtain ⟨rest, rfl⟩ := List.head?_eq_some_iff.mp head
      rw [runLength_two_eq_two first second]
      refine ⟨front_escape _ 3, .long first second, fun other inside escape => ?_⟩
      have shape := escape.cases_front inside
      grind [not_isEscapeLetter_x]
    · rw [runLength_two_eq_one first both]
      refine ⟨front_escape _ 2, .short first, fun other inside escape => ?_⟩
      have shape := escape.cases_front inside
      grind [not_isEscapeLetter_x]
  · rw [runLength_two_eq_zero first]
    intro text inside escape
    have shape := escape.cases_front inside
    grind [not_isEscapeLetter_x]

/-- The reader takes the longest escape sequence, and none only where there is none. -/
theorem escapeLength?_spec (cs : List Char) : EscapeSpec cs (escapeLength? cs) := by
  rcases cs with _ | ⟨c, cs⟩
  · intro text inside escape
    have shape := escape.cases_front inside
    simp at shape
  by_cases letter : isEscapeLetter c = true
  · rw [escapeLength?_letter letter]
    refine ⟨front_escape _ 1, .letter (isEscapeLetter_iff.mp letter), fun other inside escape => ?_⟩
    have shape := escape.cases_front inside
    grind [not_isEscapeLetter_x]
  by_cases isX : c = 'x'
  · subst isX
    exact escapeSpec_x cs
  · rw [escapeLength?_other letter isX]
    intro text inside escape
    have shape := escape.cases_front inside
    grind

theorem longest_escape {cs : List Char} {n : Nat} (length : escapeLength? cs = some n) :
    Longest IsEscape ('\\' :: cs) ('\\' :: cs.take n) := by
  have spec := escapeLength?_spec cs
  rwa [length] at spec

theorem no_escape {cs text : List Char} (length : escapeLength? cs = none)
    (front : text <+: '\\' :: cs) : ¬IsEscape text := by
  have spec := escapeLength?_spec cs
  rw [length] at spec
  exact spec text front

theorem longest_name {c : Char} (opens : opensName c = true) (cs : List Char) :
    Longest IsName (c :: cs) (c :: cs.take (runLength continuesName cs)) :=
  longest_run (fun _ => Lexeme.continuesName_iff) (Lexeme.opensName_iff.mpr opens) cs

theorem longest_start {cs : List Char} {n : Nat} (broken : formatLength cs = .error n) :
    ∃ front rest, cs = front ++ rest ∧ Longest StartsFormat ('%' :: cs) ('%' :: front) ∧
      cs.take n = front ++ rest.take 1 := by
  obtain ⟨rfl, starts⟩ | ⟨front, c, rest, rfl, rfl, starts, stops⟩ := formatLength_eq_error broken
  · exact ⟨cs, [], (List.append_nil cs).symm, ⟨List.prefix_rfl, starts, fun _ front _ =>
      front.length_le⟩, by simp⟩
  · refine ⟨front, c :: rest, rfl, ⟨by simp, starts, fun other inside starts => ?_⟩,
      by simp [List.take_append, List.take_of_length_le]⟩
    by_contra longer
    have within : '%' :: (front ++ [c]) <+: other := by
      refine List.prefix_of_prefix_length_le ?_ inside ?_
      · simp
      · simp only [List.length_cons, List.length_append, List.length_nil] at longer ⊢
        omega
    obtain ⟨more, rfl⟩ := within
    obtain ⟨last, format⟩ := starts
    exact stops ⟨more ++ last, by rwa [← List.append_assoc]⟩

section
variable {flavor : Flavor} {c : Char} {cs : List Char}

theorem read_escape (flavor : Flavor) (cs : List Char) : read flavor '\\' cs =
    match escapeLength? cs with
    | some n => (escape, n)
    | none => (invalidEscape, (cs.take 1).length) :=
  rfl

theorem read_format (cs : List Char) : read .format '%' cs =
    match formatLength cs with
    | .ok n => (format, n)
    | .error n => (invalidFormat, n) :=
  rfl

theorem other_of_opensName (opens : opensName c = true) : c ≠ '\\' ∧ c ≠ '%' := by
  constructor <;>
    (rintro rfl; exact absurd opens (by decide))

theorem read_name (opens : opensName c = true) (cs : List Char) : read .path c cs =
    let n := runLength continuesName cs
    if moduleSuffix.isPrefixOf (cs.drop n) then (module (n + 1), n + moduleSuffix.length)
    else (text, n) := by
  rw [read, if_neg (other_of_opensName opens).1, if_neg (by simp), if_pos ⟨opens, rfl⟩]

theorem suffix_iff {n : Nat} : moduleSuffix.isPrefixOf (cs.drop n) = true ↔
    ∃ rest, c :: cs = (c :: cs.take n) ++ (['.', 'u', 'm'] ++ rest) := by
  rw [List.isPrefixOf_iff_prefix]
  refine exists_congr fun rest => ?_
  rw [List.cons_append, List.cons.injEq, and_iff_right rfl]
  conv_rhs => lhs; rw [← List.take_append_drop n cs]
  rw [List.append_cancel_left_eq]
  exact eq_comm

theorem read_letter (noEscape : c ≠ '\\') (noFormat : flavor = .format → c ≠ '%')
    (noName : flavor = .path → ¬opensName c = true) (cs : List Char) :
    read flavor c cs = (text, 0) := by
  rw [read, if_neg noEscape, if_neg fun percent => noFormat percent.2 percent.1,
    if_neg fun name => noName name.2 name.1]

theorem take_one_length (cs : List Char) : cs.take (cs.take 1).length = cs.take 1 := by
  cases cs <;> rfl

theorem Stands.read_eq {segment : Segment} {text : List Char}
    (stands : Stands flavor (c :: cs) segment text) :
    segment = (read flavor c cs).1 ∧ text = c :: cs.take (read flavor c cs).2 := by
  -- Escapes and formats stand as far as they are well-formed, so what the reader counts is
  -- checked against the longest prefix of their form.
  cases stands with
  | escape longest =>
      obtain ⟨more, rfl⟩ : ∃ more, text = '\\' :: more := by
        cases longest.holds <;> exact ⟨_, rfl⟩
      obtain ⟨rfl, -⟩ := List.cons_prefix_cons.mp longest.front
      rw [read_escape]
      cases length : escapeLength? cs with
      | some n => exact ⟨rfl, longest.unique (longest_escape length)⟩
      | none => exact absurd longest.holds (no_escape length longest.front)
  | invalidEscape eq none =>
      obtain ⟨rfl, rfl⟩ := List.cons.inj eq
      rw [read_escape]
      cases length : escapeLength? cs with
      | some n =>
          have longest := longest_escape length
          exact absurd longest.holds (none _ longest.front)
      | none => exact ⟨rfl, by rw [take_one_length]⟩
  | format flavor inside format =>
      subst flavor
      obtain ⟨more, rfl⟩ : ∃ more, text = '%' :: more := by
        cases format
        exact ⟨_, rfl⟩
      obtain ⟨rfl, ⟨rest, rfl⟩⟩ := List.cons_prefix_cons.mp inside
      rw [read_format, format.formatLength]
      exact ⟨rfl, by rw [List.take_left]⟩
  | @invalidFormat front rest flavor eq none longest =>
      subst flavor
      obtain ⟨rfl, rfl⟩ := List.cons.inj eq
      rw [read_format]
      cases length : formatLength (front ++ rest) with
      | ok n =>
          have format := (formatLength_eq_ok.mp length).2
          exact absurd format (none _ (List.cons_prefix_cons.mpr ⟨rfl, List.take_prefix ..⟩))
      | error n =>
          obtain ⟨front', rest', eq, longest', taken⟩ := longest_start length
          obtain rfl := (List.cons.inj (longest.unique longest')).2
          obtain rfl := List.append_cancel_left eq
          exact ⟨rfl, by rw [taken]⟩
  | @module name rest flavor eq longest =>
      subst flavor
      have opens := Lexeme.opensName_iff.mp longest.opens
      obtain rfl := longest.unique (longest_name opens cs)
      have suffix := suffix_iff.mpr ⟨rest, eq⟩
      obtain ⟨_, after⟩ := List.isPrefixOf_iff_prefix.mp suffix
      rw [read_name opens, if_pos suffix, List.length_cons,
        List.length_take_of_le (runLength_le continuesName cs), List.take_add, ← after]
      exact ⟨rfl, rfl⟩
  | @name name flavor longest noSuffix =>
      subst flavor
      have opens := Lexeme.opensName_iff.mp longest.opens
      obtain rfl := longest.unique (longest_name opens cs)
      have suffix : ¬moduleSuffix.isPrefixOf (cs.drop (runLength continuesName cs)) = true := by
        intro suffix
        obtain ⟨rest, eq⟩ := suffix_iff.mp suffix
        exact noSuffix ⟨rest, (List.append_assoc ..).trans eq.symm⟩
      rw [read_name opens, if_neg suffix]
      exact ⟨rfl, rfl⟩
  | letter eq noEscape noFormat noName =>
      obtain ⟨rfl, rfl⟩ := List.cons.inj eq
      rw [read_letter noEscape noFormat fun path opens =>
        noName path (Lexeme.opensName_iff.mpr opens)]
      exact ⟨rfl, rfl⟩

theorem stands_read (flavor : Flavor) (c : Char) (cs : List Char) :
    Stands flavor (c :: cs) (read flavor c cs).1 (c :: cs.take (read flavor c cs).2) := by
  -- The reader tries an escape, a format and a name in this order.
  by_cases backslash : c = '\\'
  · subst backslash
    rw [read_escape]
    cases length : escapeLength? cs with
    | some n => exact .escape (longest_escape length)
    | none =>
        rw [take_one_length]
        exact .invalidEscape rfl fun _ => no_escape length
  by_cases percent : flavor = .format ∧ c = '%'
  · obtain ⟨rfl, rfl⟩ := percent
    rw [read_format]
    cases length : formatLength cs with
    | ok n =>
        exact .format rfl (List.cons_prefix_cons.mpr ⟨rfl, List.take_prefix n cs⟩)
          (formatLength_eq_ok.mp length).2
    | error n =>
        obtain ⟨front, rest, rfl, longest, taken⟩ := longest_start length
        rw [taken]
        refine .invalidFormat rfl rfl ?_ longest
        rintro text ⟨more, eq⟩ format
        obtain ⟨body, rfl⟩ : ∃ body, text = '%' :: body := by
          cases format
          exact ⟨_, rfl⟩
        rw [← (List.cons.inj eq).2, List.append_eq, format.formatLength] at length
        cases length
  by_cases name : flavor = .path ∧ opensName c = true
  · obtain ⟨rfl, opens⟩ := name
    rw [read_name opens]
    have longest := longest_name opens cs
    by_cases suffix : moduleSuffix.isPrefixOf (cs.drop (runLength continuesName cs)) = true
    · rw [if_pos suffix]
      obtain ⟨rest, eq⟩ := suffix_iff.mp suffix
      obtain ⟨_, after⟩ := List.isPrefixOf_iff_prefix.mp suffix
      have stands := Stands.module rfl eq longest
      rw [List.length_cons, List.length_take_of_le (runLength_le continuesName cs)] at stands
      rw [List.take_add, ← after]
      exact stands
    · rw [if_neg suffix]
      refine .name rfl longest ?_
      rintro ⟨rest, eq⟩
      exact suffix (suffix_iff.mpr ⟨rest, eq.symm.trans (List.append_assoc ..)⟩)
  · have noFormat : flavor = .format → c ≠ '%' := fun format sign => percent ⟨format, sign⟩
    have noName : flavor = .path → ¬opensName c = true := fun path opens => name ⟨path, opens⟩
    rw [read_letter backslash noFormat noName]
    exact .letter rfl backslash noFormat fun path opens =>
      noName path (Lexeme.opensName_iff.mp opens)

theorem stands_iff {segment : Segment} {text : List Char} :
    Stands flavor (c :: cs) segment text ↔
      segment = (read flavor c cs).1 ∧ text = c :: cs.take (read flavor c cs).2 := by
  refine ⟨Stands.read_eq, ?_⟩
  rintro ⟨rfl, rfl⟩
  exact stands_read flavor c cs

end

def IsKnown (segment : Segment) : Prop := segment ≠ .invalidEscape ∧ segment ≠ .invalidFormat

end Segment

open Segment

abbrev Reading (flavor : Flavor) : Nat → List Char → List (Tile Segment) → Prop :=
  Tiling (Segment.Stands flavor)

/-- The body is made of sequences and of characters that stand for themselves. -/
inductive WellFormed (flavor : Flavor) : List Char → Prop
  | nil : WellFormed flavor []
  | escape {text rest : List Char} :
      IsEscape text → WellFormed flavor rest → WellFormed flavor (text ++ rest)
  | format {text rest : List Char} :
      flavor = .format → IsFormat text → WellFormed flavor rest → WellFormed flavor (text ++ rest)
  | letter {c : Char} {rest : List Char} :
      c ≠ '\\' → (flavor = .format → c ≠ '%') → WellFormed flavor rest → WellFormed flavor (c :: rest)

namespace WellFormed
variable {flavor : Flavor} {c : Char} {cs rest text : List Char}

theorem of_backslash (wf : WellFormed flavor ('\\' :: cs)) :
    ∃ text rest, '\\' :: cs = text ++ rest ∧ IsEscape text ∧ WellFormed flavor rest := by
  generalize whole : '\\' :: cs = all at wf
  cases wf with
  | nil => cases whole
  | escape escape wf => exact ⟨_, _, rfl, escape, wf⟩
  | format flavor format wf =>
      cases format
      cases whole
  | letter noEscape => exact absurd (List.cons.inj whole).1.symm noEscape

theorem of_percent (wf : WellFormed .format ('%' :: cs)) :
    ∃ text rest, '%' :: cs = text ++ rest ∧ IsFormat text ∧ WellFormed .format rest := by
  generalize whole : '%' :: cs = all at wf
  cases wf with
  | nil => cases whole
  | escape escape wf => cases escape <;> cases whole
  | format flavor format wf => exact ⟨_, _, rfl, format, wf⟩
  | letter noEscape noFormat => exact absurd (List.cons.inj whole).1.symm (noFormat rfl)

theorem cons_iff (noEscape : c ≠ '\\') (noFormat : flavor = .format → c ≠ '%') :
    WellFormed flavor (c :: cs) ↔ WellFormed flavor cs := by
  refine ⟨fun wf => ?_, .letter noEscape noFormat⟩
  generalize whole : c :: cs = all at wf
  cases wf with
  | nil => cases whole
  | escape escape wf => cases escape <;> exact absurd (List.cons.inj whole).1 noEscape
  | format flavor format wf =>
      cases format
      exact absurd (List.cons.inj whole).1 (noFormat flavor)
  | letter _ _ wf => rwa [(List.cons.inj whole).2]

theorem append_iff (letters : ∀ c ∈ text, c ≠ '\\' ∧ (flavor = .format → c ≠ '%')) :
    WellFormed flavor (text ++ rest) ↔ WellFormed flavor rest := by
  induction text with
  | nil => rfl
  | cons c text ih =>
      obtain ⟨⟨noEscape, noFormat⟩, later⟩ := List.forall_mem_cons.mp letters
      rw [List.cons_append, cons_iff noEscape noFormat, ih later]

end WellFormed

theorem Segment.IsName.letters {name : List Char} (isName : IsName name) :
    ∀ c ∈ name, c ≠ '\\' := by
  cases name with
  | nil => exact isName.elim
  | cons d name =>
      have other : ∀ c : Char, (c.isAlphanum = true ∨ c = '_') → c ≠ '\\' := by
        rintro c continues rfl
        exact absurd continues (by decide)
      rw [List.forall_mem_cons]
      exact ⟨(other_of_opensName (Lexeme.opensName_iff.mp isName.1)).1,
        fun c mem => other c (isName.2 c mem)⟩

theorem Segment.IsEscape.more {text more : List Char} (escape : IsEscape text)
    (longer : IsEscape (text ++ more)) : ∀ c ∈ more, isHexDigit c = true := by
  have noX : 'x' ∉ "0abefnrtv".toList := by decide
  generalize whole : text ++ more = cs at longer
  cases escape <;> cases longer <;> simp_all

theorem Segment.IsEscape.head {text : List Char} (escape : IsEscape text) :
    ∃ more, text = '\\' :: more := by
  cases escape <;> exact ⟨_, rfl⟩

theorem Segment.IsFormat.head {text : List Char} (format : IsFormat text) :
    ∃ more, text = '%' :: more := by
  cases format
  exact ⟨_, rfl⟩

theorem not_wellFormed_of_noEscape {flavor : Flavor} {cs : List Char}
    (none : ∀ text, text <+: '\\' :: cs → ¬IsEscape text) : ¬WellFormed flavor ('\\' :: cs) := by
  intro wf
  obtain ⟨text, rest, eq, escape, -⟩ := wf.of_backslash
  exact none text ⟨rest, eq.symm⟩ escape

theorem not_wellFormed_of_noFormat {cs : List Char}
    (none : ∀ text, text <+: '%' :: cs → ¬IsFormat text) : ¬WellFormed .format ('%' :: cs) := by
  intro wf
  obtain ⟨text, rest, eq, format, -⟩ := wf.of_percent
  exact none text ⟨rest, eq.symm⟩ format

/-- A well-formed body may read its first escape sequence shorter than it stands there, and then has
the digits left over as letters. -/
theorem wellFormed_escape {flavor : Flavor} {text rest : List Char}
    (longest : Longest IsEscape (text ++ rest) text) :
    WellFormed flavor (text ++ rest) ↔ WellFormed flavor rest := by
  refine ⟨fun wf => ?_, .escape longest.holds⟩
  obtain ⟨tail, eq⟩ := longest.holds.head
  have begins : text ++ rest = '\\' :: (tail ++ rest) := congrArg (· ++ rest) eq
  rw [begins] at wf
  obtain ⟨text', rest', whole, escape, wf⟩ := wf.of_backslash
  rw [← begins] at whole
  obtain ⟨more, rfl⟩ : text' <+: text :=
    List.prefix_of_prefix_length_le ⟨rest', whole.symm⟩ longest.front
      (longest.longest _ ⟨rest', whole.symm⟩ escape)
  rw [List.append_assoc] at whole
  obtain rfl := List.append_cancel_left whole
  refine (WellFormed.append_iff fun c mem => ?_).mp wf
  have digit := escape.more longest.holds c mem
  constructor
  · rintro rfl
    exact absurd digit (by decide)
  · rintro - rfl
    exact absurd digit (by decide)

theorem wellFormed_format {text rest : List Char} (format : IsFormat text) :
    WellFormed .format (text ++ rest) ↔ WellFormed .format rest := by
  refine ⟨fun wf => ?_, .format rfl format⟩
  obtain ⟨tail, rfl⟩ := format.head
  obtain ⟨text', rest', whole, format', wf⟩ := wf.of_percent
  obtain ⟨tail', rfl⟩ := format'.head
  have bodies : tail ++ rest = tail' ++ rest' := (List.cons.inj whole).2
  have lengths := format'.formatLength rest'
  rw [← bodies, format.formatLength rest, Except.ok.injEq] at lengths
  obtain ⟨-, rfl⟩ := List.append_inj bodies lengths
  exact wf

theorem Segment.Stands.wellFormed_iff {flavor : Flavor} {segment : Segment} {text rest : List Char}
    (stands : Stands flavor (text ++ rest) segment text) :
    WellFormed flavor (text ++ rest) ↔ segment.IsKnown ∧ WellFormed flavor rest := by
  generalize whole : text ++ rest = cs at stands
  cases stands with
  | escape longest =>
      subst whole
      simp [IsKnown, wellFormed_escape longest]
  | invalidEscape eq none =>
      subst eq
      simp [IsKnown, not_wellFormed_of_noEscape none]
  | format format inside isFormat =>
      subst whole format
      simp [IsKnown, wellFormed_format isFormat]
  | invalidFormat format eq none =>
      subst eq format
      simp [IsKnown, not_wellFormed_of_noFormat none]
  | module path eq longest =>
      subst whole path
      have letters := longest.holds.letters
      rw [WellFormed.append_iff (by simpa [or_imp, forall_and] using letters)]
      simp [IsKnown]
  | name path longest noSuffix =>
      subst whole path
      rw [WellFormed.append_iff (by simpa using longest.holds.letters)]
      simp [IsKnown]
  | letter eq noEscape noFormat noName =>
      subst whole
      rw [List.singleton_append, WellFormed.cons_iff noEscape noFormat]
      simp [IsKnown]

theorem tilesAfter_known_iff (flavor : Flavor) (offset skip : Nat) (cs : List Char) :
    (∀ tile ∈ tilesAfter (Segment.read flavor) offset skip cs, tile.what.IsKnown) ↔
      WellFormed flavor (cs.drop skip) := by
  induction cs generalizing offset skip with
  | nil => simp [tilesAfter, WellFormed.nil]
  | cons c cs ih =>
      cases skip with
      | succ skip => exact ih _ skip
      | zero =>
          have stands : Segment.Stands flavor ((c :: cs.take (Segment.read flavor c cs).2) ++
              cs.drop (Segment.read flavor c cs).2) (Segment.read flavor c cs).1
              (c :: cs.take (Segment.read flavor c cs).2) := by
            rw [List.cons_append, List.take_append_drop]
            exact stands_read flavor c cs
          have here := stands.wellFormed_iff
          rw [List.cons_append, List.take_append_drop] at here
          rw [List.drop_zero, here, ← ih (offset + c.utf8Size), tilesAfter, List.forall_mem_cons]

end UmkaSyntax
