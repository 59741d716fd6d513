import Mathlib.Data.List.TakeWhile
import UmkaSyntax.Proofs.Lexing.Concatenation

namespace UmkaSyntax

/-- The text is a prefix of the characters that has the property, and no longer prefix has it. -/
structure Longest (P : List Char → Prop) (cs text : List Char) : Prop where
  front : text <+: cs
  holds : P text
  longest : ∀ other, other <+: cs → P other → other.length ≤ text.length

theorem Longest.unique {P : List Char → Prop} {cs text other : List Char} (a : Longest P cs text)
    (b : Longest P cs other) : text = other := by
  have inside : text <+: other :=
    List.prefix_of_prefix_length_le a.front b.front (b.longest text a.front a.holds)
  exact inside.eq_of_length_le (a.longest other b.front b.holds)

def RunOf (first later : Char → Prop) : List Char → Prop
  | [] => False
  | c :: cs => first c ∧ ∀ d ∈ cs, later d

theorem take_runLength (p : Char → Bool) (cs : List Char) :
    cs.take (runLength p cs) = cs.takeWhile p :=
  (List.prefix_iff_eq_take.mp (List.takeWhile_prefix p)).symm

theorem drop_runLength (p : Char → Bool) (cs : List Char) :
    cs.drop (runLength p cs) = cs.dropWhile p := by
  have split := (List.take_append_drop (runLength p cs) cs).trans
    (List.takeWhile_append_dropWhile (p := p)).symm
  rw [take_runLength] at split
  exact List.append_cancel_left split

theorem runLength_append {p : Char → Bool} {run : List Char} (all : ∀ c ∈ run, p c = true)
    (rest : List Char) : runLength p (run ++ rest) = run.length + runLength p rest := by
  rw [runLength, List.takeWhile_append_of_pos all, List.length_append]
  rfl

theorem runLength_cons_neg {p : Char → Bool} {c : Char} (other : p c = false) (cs : List Char) :
    runLength p (c :: cs) = 0 := by
  simp [runLength, other]

theorem of_mem_take_runLength {p : Char → Bool} {c : Char} {cs : List Char}
    (mem : c ∈ cs.take (runLength p cs)) : p c = true := by
  rw [take_runLength] at mem
  exact List.mem_takeWhile_imp mem

theorem run_of_runLength {p : Char → Bool} {cs : List Char} (some : runLength p cs ≠ 0) :
    RunOf (p · = true) (p · = true) (cs.take (runLength p cs)) := by
  have all : ∀ c ∈ cs.take (runLength p cs), p c = true := fun _ => of_mem_take_runLength
  have length : (cs.take (runLength p cs)).length = runLength p cs :=
    List.length_take_of_le (runLength_le p cs)
  cases taken : cs.take (runLength p cs) with
  | nil =>
      rw [taken] at length
      exact absurd length.symm some
  | cons c more =>
      rw [taken] at all
      exact List.forall_mem_cons.mp all

theorem longest_run {first later : Char → Prop} {p : Char → Bool}
    (reads : ∀ c, later c ↔ p c = true) {c : Char} (opens : first c) (cs : List Char) :
    Longest (RunOf first later) (c :: cs) (c :: cs.take (runLength p cs)) where
  front := List.cons_prefix_cons.mpr ⟨rfl, List.take_prefix _ _⟩
  holds := ⟨opens, fun d mem => (reads d).mpr (of_mem_take_runLength mem)⟩
  longest := by
    rintro (_ | ⟨d, ds⟩) ⟨rest, eq⟩ run
    · exact Nat.zero_le _
    · obtain ⟨rfl, rfl⟩ := List.cons.inj eq
      have all : ∀ d ∈ ds, p d = true := fun d mem => (reads d).mp (run.2 d mem)
      simp [runLength_append all]

def Digits : List Char → Prop := RunOf (·.isDigit = true) (·.isDigit = true)

def HexDigits : List Char → Prop := RunOf (isHexDigit · = true) (isHexDigit · = true)

inductive Power : List Char → Prop
  | plain {e : Char} {ds : List Char} : e = 'e' ∨ e = 'E' → Digits ds → Power (e :: ds)
  | negative {e : Char} {ds : List Char} : e = 'e' ∨ e = 'E' → Digits ds → Power (e :: '-' :: ds)

inductive Numeral : TokenKind → List Char → Prop
  | whole {ds : List Char} : Digits ds → Numeral .decNumber ds
  | hex {hs : List Char} : HexDigits hs → Numeral .hexNumber ('0' :: 'x' :: hs)
  | point {ds fs : List Char} : Digits ds → Digits fs → Numeral .realNumber (ds ++ '.' :: fs)
  | power {ds ps : List Char} : Digits ds → Power ps → Numeral .realNumber (ds ++ ps)
  | pointPower {ds fs ps : List Char} : Digits ds → Digits fs → Power ps →
      Numeral .realNumber (ds ++ '.' :: fs ++ ps)

theorem Digits.all {ds : List Char} (digits : Digits ds) : ∀ d ∈ ds, d.isDigit = true := by
  cases ds with
  | nil => exact digits.elim
  | cons d ds => exact List.forall_mem_cons.mpr digits

theorem HexDigits.all {hs : List Char} (digits : HexDigits hs) : ∀ d ∈ hs, isHexDigit d = true := by
  cases hs with
  | nil => exact digits.elim
  | cons d hs => exact List.forall_mem_cons.mpr digits

theorem Digits.ne_nil {ds : List Char} (digits : Digits ds) : ds ≠ [] := by
  rintro rfl
  exact digits

theorem HexDigits.ne_nil {hs : List Char} (digits : HexDigits hs) : hs ≠ [] := by
  rintro rfl
  exact digits

theorem Power.head {ps : List Char} (power : Power ps) :
    ∃ e more, ps = e :: more ∧ (e = 'e' ∨ e = 'E') := by
  cases power with
  | plain mark => exact ⟨_, _, rfl, mark⟩
  | negative mark => exact ⟨_, _, rfl, mark⟩

theorem Numeral.kind_eq {kind : TokenKind} {text : List Char} (numeral : Numeral kind text) :
    kind = if 'x' ∈ text then .hexNumber
      else if '.' ∈ text ∨ 'e' ∈ text ∨ 'E' ∈ text then .realNumber else .decNumber := by
  have plain : ∀ {ds : List Char}, Digits ds → ∀ c, c.isDigit = false → c ∉ ds := by
    intro ds digits c other mem
    rw [digits.all c mem] at other
    cases other
  have power : ∀ {ps : List Char}, Power ps → 'x' ∉ ps ∧ ('e' ∈ ps ∨ 'E' ∈ ps) := by
    intro ps power
    cases power with
    | plain mark digits =>
        have absent := plain digits 'x' rfl
        rcases mark with rfl | rfl <;> simp [absent]
    | negative mark digits =>
        have absent := plain digits 'x' rfl
        rcases mark with rfl | rfl <;> simp [absent]
  cases numeral with
  | whole digits =>
      simp [plain digits 'x' rfl, plain digits '.' rfl, plain digits 'e' rfl, plain digits 'E' rfl]
  | hex => simp
  | point digits more => simp [plain digits 'x' rfl, plain more 'x' rfl]
  | power digits mark => grind [plain digits 'x' rfl, power mark]
  | pointPower digits more mark => simp [plain digits 'x' rfl, plain more 'x' rfl, power mark]

namespace Lexeme

theorem hexTail_digits {hs : List Char} (digits : HexDigits hs) (rest : List Char) :
    hexTail ('x' :: (hs ++ rest)) = hs.length + 1 + runLength isHexDigit rest := by
  have length : 0 < hs.length := List.length_pos_iff.mpr digits.ne_nil
  obtain ⟨n, eq⟩ : ∃ n, hs.length + runLength isHexDigit rest = n + 1 :=
    Nat.exists_eq_succ_of_ne_zero (by omega)
  simp only [hexTail, runLength_append digits.all, eq]
  omega

theorem fraction_point {fs : List Char} (digits : Digits fs) (rest : List Char) :
    fraction ('.' :: (fs ++ rest)) = fs.length + 1 + runLength Char.isDigit rest := by
  have length : 0 < fs.length := List.length_pos_iff.mpr digits.ne_nil
  obtain ⟨n, eq⟩ : ∃ n, fs.length + runLength Char.isDigit rest = n + 1 :=
    Nat.exists_eq_succ_of_ne_zero (by omega)
  simp only [fraction, runLength_append digits.all, eq]
  omega

theorem exponent_power {ps : List Char} (power : Power ps) (rest : List Char) :
    exponent (ps ++ rest) = ps.length + runLength Char.isDigit rest := by
  cases power with
  | @plain e ds mark digits =>
      obtain ⟨d, more, rfl⟩ := List.exists_cons_of_ne_nil digits.ne_nil
      have noSign : d ≠ '-' := by
        rintro rfl
        exact absurd digits.1 (by decide)
      have all := runLength_append digits.all rest
      rw [List.cons_append, List.length_cons, Nat.add_right_comm] at all
      simp only [exponent, List.cons_append, mark, if_true, List.head?_cons, Option.some.injEq,
        noSign, if_false, List.drop_zero, all, List.length_cons]
      omega
  | @negative e ds mark digits =>
      have length : 0 < ds.length := List.length_pos_iff.mpr digits.ne_nil
      obtain ⟨n, eq⟩ : ∃ n, ds.length + runLength Char.isDigit rest = n + 1 :=
        Nat.exists_eq_succ_of_ne_zero (by omega)
      simp only [exponent, List.cons_append, mark, if_true, List.head?_cons, List.drop_succ_cons,
        List.drop_zero, runLength_append digits.all, eq, List.length_cons]
      omega

theorem exists_hexTail {cs : List Char} (some : hexTail cs ≠ 0) :
    ∃ hs, HexDigits hs ∧ cs.take (hexTail cs) = 'x' :: hs := by
  unfold hexTail at some ⊢
  split at some
  · rename_i cs
    split at some
    · exact absurd rfl some
    · rename_i n eq
      have digits : HexDigits (cs.take (runLength isHexDigit cs)) := run_of_runLength (by simp [eq])
      exact ⟨_, digits, by simp [eq]⟩
  · exact absurd rfl some

theorem exists_fraction {cs : List Char} (some : fraction cs ≠ 0) :
    ∃ fs, Digits fs ∧ cs.take (fraction cs) = '.' :: fs := by
  unfold fraction at some ⊢
  split at some
  · rename_i cs
    split at some
    · exact absurd rfl some
    · rename_i n eq
      have digits : Digits (cs.take (runLength Char.isDigit cs)) := run_of_runLength (by simp [eq])
      exact ⟨_, digits, by simp [eq]⟩
  · exact absurd rfl some

theorem power_of_exponent {cs : List Char} (some : exponent cs ≠ 0) :
    Power (cs.take (exponent cs)) := by
  cases cs with
  | nil => exact absurd rfl some
  | cons c cs =>
      by_cases mark : c = 'e' ∨ c = 'E'
      · by_cases minus : cs.head? = Option.some '-'
        · obtain ⟨more, rfl⟩ := List.head?_eq_some_iff.mp minus
          simp only [exponent, mark, if_true, minus, List.drop_succ_cons, List.drop_zero] at some ⊢
          split at some
          · exact absurd rfl some
          · rename_i n eq
            have digits : Digits (more.take (runLength Char.isDigit more)) :=
              run_of_runLength (by simp [eq])
            rw [eq] at digits
            exact .negative mark digits
        · simp only [exponent, mark, if_true, minus, if_false, List.drop_zero] at some ⊢
          split at some
          · exact absurd rfl some
          · rename_i n eq
            have digits : Digits (cs.take (runLength Char.isDigit cs)) :=
              run_of_runLength (by simp [eq])
            rw [eq] at digits
            exact .plain mark digits
      · exact absurd (if_neg mark) some

theorem number_of_hex {cs : List Char} (hex : hexTail cs ≠ 0) :
    number '0' cs = (.hexNumber, hexTail cs) := by
  obtain ⟨hs, -, eq⟩ := exists_hexTail hex
  obtain ⟨more, rfl⟩ : ∃ more, cs = 'x' :: more := by
    cases cs with
    | nil => exact absurd rfl hex
    | cons d more =>
        obtain ⟨n, count⟩ := Nat.exists_eq_succ_of_ne_zero hex
        rw [count, List.take_succ_cons] at eq
        exact ⟨more, by rw [(List.cons.inj eq).1]⟩
  have none : runLength Char.isDigit ('x' :: more) = 0 := runLength_cons_neg rfl more
  simp [number, none, hex]

theorem number_of_plain {c : Char} {cs : List Char} (plain : c = '0' → hexTail cs = 0) :
    number c cs =
      let whole := runLength Char.isDigit cs
      let point := fraction (cs.drop whole)
      let power := exponent ((cs.drop whole).drop point)
      (if point = 0 ∧ power = 0 then .decNumber else .realNumber, whole + point + power) := by
  have none : (if c = '0' ∧ runLength Char.isDigit cs = 0 then hexTail cs else 0) = 0 := by
    split
    · rename_i opens
      exact plain opens.1
    · rfl
  simp only [number, none, ne_eq, not_true_eq_false, if_false]

theorem hex_or_plain (c : Char) (cs : List Char) :
    (c = '0' ∧ hexTail cs ≠ 0) ∨ (c = '0' → hexTail cs = 0) := by
  tauto

theorem number_numeral {c : Char} (digit : c.isDigit = true) (cs : List Char) :
    Numeral (number c cs).1 (c :: cs.take (number c cs).2) := by
  obtain ⟨rfl, hex⟩ | plain := hex_or_plain c cs
  · obtain ⟨hs, digits, eq⟩ := exists_hexTail hex
    rw [number_of_hex hex, eq]
    exact .hex digits
  · have whole : Digits (c :: cs.take (runLength Char.isDigit cs)) :=
      ⟨digit, fun _ => of_mem_take_runLength⟩
    rw [number_of_plain plain]
    simp only [List.take_add, List.append_assoc]
    rw [← List.drop_drop]
    generalize cs.drop (runLength Char.isDigit cs) = tail
    by_cases point : fraction tail = 0
    · rw [point, List.drop_zero, List.take_zero, List.nil_append]
      by_cases power : exponent tail = 0
      · simpa [power] using Numeral.whole whole
      · simpa [power] using Numeral.power whole (power_of_exponent power)
    · obtain ⟨fs, digits, eq⟩ := exists_fraction point
      rw [eq]
      by_cases power : exponent (tail.drop (fraction tail)) = 0
      · simpa [point, power] using Numeral.point whole digits
      · simpa [point] using Numeral.pointPower whole digits (power_of_exponent power)

/-- Where no hexadecimal number begins, a number goes on behind its first digits with a fraction and
an exponent, each if it is there. -/
theorem number_tail {c : Char} {ds tail : List Char} (digits : ∀ d ∈ ds, d.isDigit = true)
    (stops : ∀ d ∈ tail.head?, d.isDigit = false ∧ d ≠ 'x') :
    (number c (ds ++ tail)).2 =
      ds.length + fraction tail + exponent (tail.drop (fraction tail)) := by
  have none : runLength Char.isDigit tail = 0 := by
    cases tail with
    | nil => rfl
    | cons d tail => exact runLength_cons_neg (stops d rfl).1 tail
  have whole : runLength Char.isDigit (ds ++ tail) = ds.length := by
    rw [runLength_append digits, none, Nat.add_zero]
  have plain : hexTail (ds ++ tail) = 0 := by
    cases ds with
    | nil =>
        cases tail with
        | nil => rfl
        | cons d tail => simp [hexTail, (stops d rfl).2]
    | cons d ds =>
        have other : d ≠ 'x' := by
          rintro rfl
          exact absurd (digits 'x' List.mem_cons_self) (by decide)
        simp [hexTail, other]
  rw [number_of_plain fun _ => plain]
  simp only [whole, List.drop_left]

theorem runLength_le_number (c : Char) (cs : List Char) :
    runLength Char.isDigit cs ≤ (number c cs).2 := by
  obtain ⟨rfl, hex⟩ | plain := hex_or_plain c cs
  · have none : runLength Char.isDigit cs = 0 := by
      unfold hexTail at hex
      split at hex
      · exact runLength_cons_neg rfl _
      · exact absurd rfl hex
    omega
  · rw [number_of_plain plain]
    dsimp only
    omega

theorem numeral_le_number {kind : TokenKind} {text : List Char} (numeral : Numeral kind text)
    {c : Char} {cs : List Char} (front : text <+: c :: cs) : text.length ≤ (number c cs).2 + 1 := by
  have begins : ∀ {ds tail : List Char}, Digits ds → ds ++ tail = c :: cs →
      ∃ more, ds = c :: more ∧ (∀ d ∈ more, d.isDigit = true) ∧ cs = more ++ tail := by
    intro ds tail digits eq
    obtain ⟨d, more, rfl⟩ := List.exists_cons_of_ne_nil digits.ne_nil
    obtain ⟨rfl, rfl⟩ := List.cons.inj eq
    exact ⟨more, rfl, digits.2, rfl⟩
  obtain ⟨rest, eq⟩ := front
  -- Each part of a numeral is as long as the run that the reader counts there, or shorter.
  cases numeral with
  | whole digits =>
      obtain ⟨more, rfl, all, rfl⟩ := begins digits eq
      have length := runLength_le_number c (more ++ rest)
      rw [runLength_append all] at length
      rw [List.length_cons]
      omega
  | @hex hs digits =>
      obtain ⟨rfl, rfl⟩ : '0' = c ∧ 'x' :: (hs ++ rest) = cs := List.cons.inj eq
      have tail := hexTail_digits digits rest
      rw [number_of_hex (by rw [tail]; omega), tail]
      simp only [List.length_cons]
      omega
  | @point ds fs digits fraction =>
      rw [List.append_assoc, List.cons_append] at eq
      obtain ⟨more, rfl, all, rfl⟩ := begins digits eq
      rw [number_tail all (by simp), fraction_point fraction]
      simp only [List.length_cons, List.length_append]
      omega
  | @power ds ps digits power =>
      rw [List.append_assoc] at eq
      obtain ⟨more, rfl, all, rfl⟩ := begins digits eq
      obtain ⟨e, ps', rfl, mark⟩ := power.head
      have none : fraction ((e :: ps') ++ rest) = 0 := by
        rcases mark with rfl | rfl <;> rfl
      have stops : ∀ d ∈ ((e :: ps') ++ rest).head?, d.isDigit = false ∧ d ≠ 'x' := by
        rcases mark with rfl | rfl <;> simp
      rw [number_tail all stops, none, List.drop_zero, exponent_power power]
      simp only [List.length_append, List.length_cons]
      omega
  | @pointPower ds fs ps digits fraction power =>
      rw [List.append_assoc, List.append_assoc, List.cons_append] at eq
      obtain ⟨more, rfl, all, rfl⟩ := begins digits eq
      obtain ⟨e, ps', rfl, mark⟩ := power.head
      have none : runLength Char.isDigit ((e :: ps') ++ rest) = 0 := by
        apply runLength_cons_neg
        rcases mark with rfl | rfl <;> rfl
      have point := fraction_point fraction ((e :: ps') ++ rest)
      rw [none, Nat.add_zero] at point
      have after : ('.' :: (fs ++ ((e :: ps') ++ rest))).drop (fs.length + 1) =
          (e :: ps') ++ rest := by
        rw [List.drop_succ_cons, List.drop_left]
      rw [number_tail all (by simp), point, after, exponent_power power]
      simp only [List.length_append, List.length_cons]
      omega

theorem longest_number {c : Char} (digit : c.isDigit = true) (cs : List Char) :
    Longest (fun text => ∃ kind, Numeral kind text) (c :: cs) (c :: cs.take (number c cs).2) where
  front := List.cons_prefix_cons.mpr ⟨rfl, List.take_prefix _ _⟩
  holds := ⟨_, number_numeral digit cs⟩
  longest := by
    rintro other front ⟨kind, numeral⟩
    have within : other.length ≤ cs.length + 1 := front.length_le
    have most := numeral_le_number numeral front
    rw [List.length_cons, List.length_take]
    omega

end Lexeme

end UmkaSyntax
