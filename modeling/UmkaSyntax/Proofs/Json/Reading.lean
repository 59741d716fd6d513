import Mathlib.Data.List.TakeWhile
import UmkaSyntax.Json.Printer
import UmkaSyntax.Json.Reader
import UmkaSyntax.Proofs.Lexing.Longest

namespace UmkaSyntax.Json

inductive Escaped (c : Char) : List Char → Prop
  | letter {l : Char} : l ≠ 'u' → unescapeLetter? l = some c → Escaped c ['\\', l]
  | unit {high low : Char} : c.toNat < 0x20 → codeUnit? '0' '0' high low = some c.toNat →
      high ∉ ['"', '\\'] → low ∉ ['"', '\\'] → Escaped c ['\\', 'u', '0', '0', high, low]
  | plain : c ∉ ['"', '\\'] → 0x20 ≤ c.toNat → Escaped c [c]

theorem hexValue?_digitChar {n : Nat} (digit : n < 16) : hexValue? n.digitChar = some n := by
  revert n
  decide

theorem codeUnit?_hexByte {n : Nat} (small : n < 0x20) :
    codeUnit? '0' '0' (n / 16).digitChar (n % 16).digitChar = some n := by
  have high := hexValue?_digitChar (show n / 16 < 16 by omega)
  have low := hexValue?_digitChar (show n % 16 < 16 by omega)
  have zero : hexValue? '0' = some 0 := rfl
  rw [codeUnit?, high, low, zero]
  exact congrArg some (by omega)

theorem digitChar_plain (n : Nat) : n.digitChar ∉ ['"', '\\'] := by
  simp [Nat.digitChar_ne]

theorem escape_escaped (c : Char) : Escaped c (escape c) := by
  unfold escape
  split_ifs with quote backslash backspace tab newline feed ret control
  case pos | pos | pos | pos | pos | pos | pos => subst c; exact .letter (by decide) rfl
  · exact .unit control (codeUnit?_hexByte control) (digitChar_plain _) (digitChar_plain _)
  · exact .plain (by simp [quote, backslash]) (Nat.le_of_not_lt control)

theorem stringRest?_escape (c : Char) (cs : List Char) :
    stringRest? (escape c ++ cs) = (stringRest? cs).map (· + (escape c).length) := by
  have plain : ∀ {d : Char}, d ∉ ['"', '\\'] → ∀ ds,
      stringRest? (d :: ds) = (stringRest? ds).map (· + 1) := by
    intro d other ds
    simp only [List.mem_cons, List.not_mem_nil, or_false, not_or] at other
    rw [stringRest?.eq_4 _ _ other.1 (by simp [other.2])]
  have written := escape_escaped c
  generalize escape c = text at written
  cases written with
  | letter => rfl
  | unit _ _ high low =>
      simp only [List.cons_append, List.nil_append, stringRest?.eq_3, plain high, plain low,
        plain (d := '0') (by decide), Option.map_map]
      rfl
  | plain other => exact plain other cs

theorem stringRest?_escapes (s after : List Char) :
    stringRest? (s.flatMap escape ++ '"' :: after) = some ((s.flatMap escape).length + 1) := by
  induction s with
  | nil => rfl
  | cons c s ih =>
      rw [List.flatMap_cons, List.append_assoc, stringRest?_escape, ih, List.length_append,
        Option.map_some, Nat.add_right_comm, Nat.add_comm (escape c).length]

theorem unescape?_noUnit {a b c d : Char} (none : codeUnit? a b c d = none) (cs : List Char) :
    unescape? ('\\' :: 'u' :: a :: b :: c :: d :: cs) = Option.none := by
  by_cases next : ∃ e f g h more, cs = '\\' :: 'u' :: e :: f :: g :: h :: more
  · obtain ⟨e, f, g, h, more, rfl⟩ := next
    rw [unescape?.eq_2, none]
    rfl
  · rw [unescape?.eq_3 _ _ _ _ _ fun e f g h more eq => next ⟨e, f, g, h, more, eq⟩, none]
    rfl

theorem pair?_of_scalar? {n : Nat} {one : Char} (alone : scalar? n = some one) (m : Nat) :
    pair? n m = none := by
  have valid : n.isValidChar := by
    by_contra surrogate
    simp [scalar?, surrogate] at alone
  refine if_neg fun high => ?_
  simp only [Nat.isValidChar] at valid
  omega

theorem unescape?_unit {a b c d one : Char} {n : Nat} (unit : codeUnit? a b c d = some n)
    (alone : scalar? n = some one) (cs : List Char) :
    unescape? ('\\' :: 'u' :: a :: b :: c :: d :: cs) = (unescape? cs).map (one :: ·) := by
  by_cases next : ∃ e f g h more, cs = '\\' :: 'u' :: e :: f :: g :: h :: more
  · obtain ⟨e, f, g, h, more, rfl⟩ := next
    rw [unescape?.eq_2, unit]
    cases second : codeUnit? e f g h with
    | none =>
        rw [unescape?_noUnit second]
        rfl
    | some m =>
        simp only [Option.bind_eq_bind, Option.bind_some, pair?_of_scalar? alone, alone]
        cases other : scalar? m with
        | none => cases unescape? ('\\' :: 'u' :: e :: f :: g :: h :: more) <;> rfl
        | some two =>
            rw [unescape?_unit second other more]
            cases unescape? more <;> rfl
  · rw [unescape?.eq_3 _ _ _ _ _ fun e f g h more eq => next ⟨e, f, g, h, more, eq⟩, unit]
    simp only [Option.bind_eq_bind, Option.bind_some, alone]
    cases unescape? cs <;> rfl
termination_by cs.length

theorem unescape?_escape (c : Char) (cs : List Char) :
    unescape? (escape c ++ cs) = (unescape? cs).map (c :: ·) := by
  have written := escape_escaped c
  generalize escape c = text at written
  cases written with
  | letter other read =>
      rw [List.cons_append, List.cons_append, List.nil_append,
        unescape?.eq_4 _ _ (by simp [other]) (by simp [other]), read]
      cases unescape? cs <;> rfl
  | unit control unit =>
      have alone : scalar? c.toNat = some c := by
        rw [scalar?, if_pos (show c.toNat.isValidChar from c.valid), Char.ofNat_toNat]
      exact unescape?_unit unit alone cs
  | plain other filled =>
      simp only [List.mem_cons, List.not_mem_nil, or_false, not_or] at other
      rw [List.cons_append, List.nil_append, unescape?.eq_5 _ _ (by simp [other.2])
        (by simp [other.2]) (by simp [other.2]), if_neg (Nat.not_lt.mpr filled)]
      cases unescape? cs <;> rfl

theorem unescape?_escapes (s : List Char) : unescape? (s.flatMap escape) = some s := by
  induction s with
  | nil => rfl
  | cons c s ih => rw [List.flatMap_cons, unescape?_escape, ih, Option.map_some]

theorem toDigits_head {n : Nat} (filled : 0 < n) :
    ∃ c more, Nat.toDigits 10 n = c :: more ∧ c ≠ '0' := by
  induction n using Nat.strong_induction_on with
  | _ n ih =>
      rw [Nat.toDigits_eq_if (by decide)]
      split
      · exact ⟨_, _, rfl, by rw [Ne, Nat.digitChar_eq_zero]; omega⟩
      · obtain ⟨c, more, eq, other⟩ := ih (n / 10) (by omega) (by omega)
        exact ⟨c, more ++ [(n % 10).digitChar], by rw [eq]; rfl, other⟩

theorem isNatural_toDigits (n : Nat) : isNatural (Nat.toDigits 10 n) = true := by
  obtain rfl | filled := Nat.eq_zero_or_pos n
  · rfl
  · obtain ⟨c, more, eq, other⟩ := toDigits_head filled
    have digits : ∀ d ∈ c :: more, d.isDigit = true := fun d mem =>
      Nat.isDigit_of_mem_toDigits (by decide) (by decide) (eq ▸ mem)
    rw [eq, isNatural.eq_3 _ _ (by simp [other])]
    simpa [other] using digits

theorem number?_toDigits (n : Nat) : number? (Nat.toDigits 10 n) = some (nat n) := by
  rw [number?.eq_def, if_pos (isNatural_toDigits n), decimalValue, ← Nat.ofDigitChars_eq_foldl,
    Nat.ofDigitChars_ten_toDigits]

def symbolsOf? (cs : List Char) : Option (List Symbol) := symbols? (tiles readLexeme 0 cs)

theorem symbols?_tilesAfter (offset skip : Nat) (cs : List Char) :
    symbols? (tilesAfter readLexeme offset skip cs) = symbolsOf? (cs.drop skip) := by
  induction cs generalizing offset skip with
  | nil => simp [symbolsOf?, tiles, tilesAfter]
  | cons c cs ih =>
      cases skip with
      | succ skip => exact ih _ skip
      | zero =>
          rw [List.drop_zero, symbolsOf?, tiles, tilesAfter, tilesAfter]
          simp only [symbols?, ih]

theorem symbolsOf?_symbol {c : Char} {text after : List Char} {s : Symbol}
    (reads : readLexeme c (text ++ after) = (.symbol s, text.length)) :
    symbolsOf? (c :: (text ++ after)) = (symbolsOf? after).map (s :: ·) := by
  rw [symbolsOf?, tiles, tilesAfter, reads]
  simp only [symbols?, symbols?_tilesAfter, List.drop_left]

theorem symbolsOf?_space {c : Char} (space : isJsonSpace c = true) (cs : List Char) :
    symbolsOf? (c :: cs) = symbolsOf? cs := by
  -- A run of spaces is one lexeme, which may reach into what follows.
  have run : ∀ c cs, isJsonSpace c = true →
      symbolsOf? (c :: cs) = symbolsOf? (cs.dropWhile isJsonSpace) := by
    intro c cs space
    rw [symbolsOf?, tiles, tilesAfter, readLexeme.eq_def, if_pos space]
    simp only [symbols?, symbols?_tilesAfter]
    rw [drop_runLength]
  rw [run c cs space]
  cases cs with
  | nil => rfl
  | cons d ds =>
      by_cases next : isJsonSpace d = true
      · rw [run d ds next, List.dropWhile_cons_of_pos next]
      · rw [List.dropWhile_cons_of_neg next]

theorem symbolsOf?_newline (indent : Nat) (after : List Char) :
    symbolsOf? (newline indent after) = symbolsOf? after := by
  have blanks : ∀ count, symbolsOf? (List.replicate count ' ' ++ after) = symbolsOf? after := by
    intro count
    induction count with
    | zero => rfl
    | succ count ih => rw [List.replicate_succ, List.cons_append, symbolsOf?_space rfl, ih]
  rw [newline, List.cons_append, symbolsOf?_space rfl, blanks]

theorem symbolsOf?_string (s : String) (after : List Char) :
    symbolsOf? (writeString s after) =
      (symbolsOf? after).map (.scalar (.string s) :: ·) := by
  have whole : writeString s after = '"' :: (s.toList.flatMap escape ++ ['"'] ++ after) := by
    simp [writeString]
  rw [whole]
  refine symbolsOf?_symbol ?_
  rw [List.append_assoc, readLexeme.eq_def, if_neg (by decide), if_pos rfl, List.singleton_append,
    stringRest?_escapes]
  simp only [Nat.add_sub_cancel, List.take_left, unescape?_escapes, Option.map_some,
    String.ofList_toList, scalarOr, List.length_append, List.length_singleton]

/-- What stands behind a value never continues a number or a word. -/
def Ends (after : List Char) : Prop :=
  ∀ c ∈ after.head?, continuesNumber c = false ∧ c.isAlpha = false

theorem takeWhile_stops {p : Char → Bool} {text after : List Char} (inside : ∀ c ∈ text, p c = true)
    (stops : ∀ c ∈ after.head?, p c = false) : (text ++ after).takeWhile p = text := by
  rw [List.takeWhile_append_of_pos inside]
  cases after with
  | nil => simp
  | cons c after => simp [stops c rfl]

theorem symbolsOf?_nat (n : Nat) {after : List Char} (ends : Ends after) :
    symbolsOf? (Nat.toDigits 10 n ++ after) = (symbolsOf? after).map (.scalar (.nat n) :: ·) := by
  obtain ⟨c, more, eq⟩ := List.exists_cons_of_ne_nil (Nat.toDigits_ne_nil (n := n) (b := 10))
  have digits : ∀ d ∈ c :: more, d.isDigit = true := fun d mem =>
    Nat.isDigit_of_mem_toDigits (by decide) (by decide) (eq ▸ mem)
  have digit := digits c List.mem_cons_self
  have number : ∀ d ∈ more, continuesNumber d = true := fun d mem => by
    rw [continuesNumber, digits d (List.mem_cons_of_mem c mem), Bool.true_or]
  have space : ¬isJsonSpace c = true := by
    rintro space
    simp only [isJsonSpace, Bool.or_eq_true, beq_iff_eq] at space
    obtain ((rfl | rfl) | rfl) | rfl := space <;> revert digit <;> decide
  have quote : c ≠ '"' := by
    rintro rfl
    revert digit
    decide
  have run := takeWhile_stops number fun d mem => (ends d mem).1
  rw [eq, List.cons_append]
  refine symbolsOf?_symbol ?_
  rw [readLexeme.eq_def, if_neg space, if_neg quote, if_pos (.inr digit), runLength, run, ← eq,
    number?_toDigits]
  rfl

theorem symbolsOf?_word {c : Char} (text : List Char) {after : List Char} {value : Json}
    (reads : word? (c :: text) = some value) (first : c ∈ ['n', 't', 'f'])
    (letters : text.all Char.isAlpha = true) (ends : Ends after) :
    symbolsOf? (c :: (text ++ after)) = (symbolsOf? after).map (.scalar value :: ·) := by
  have run := takeWhile_stops (List.all_eq_true.mp letters) fun d mem => (ends d mem).2
  have starts : ∀ c ∈ ['n', 't', 'f'], ¬isJsonSpace c = true ∧ c ≠ '"' ∧
      ¬(c = '-' ∨ c.isDigit = true) ∧ c.isAlpha = true :=
    List.forall_iff_forall_mem.mp (by decide)
  obtain ⟨space, quote, number, letter⟩ := starts c first
  refine symbolsOf?_symbol ?_
  rw [readLexeme.eq_def, if_neg space, if_neg quote, if_neg number, if_pos letter, runLength, run,
    reads]
  rfl

mutual

/-- Every number in the value is natural, so that none is kept by its spelling. -/
def Natural : Json → Prop
  | .numeral _ => False
  | .array items => NaturalItems items
  | .object members => NaturalMembers members
  | _ => True

def NaturalItems : List Json → Prop
  | [] => True
  | item :: items => Natural item ∧ NaturalItems items

def NaturalMembers : List (String × Json) → Prop
  | [] => True
  | (_, value) :: members => Natural value ∧ NaturalMembers members

end

mutual

def symbols : Json → List Symbol
  | .array [] => [.openBracket, .closeBracket]
  | .array (item :: items) => .openBracket :: (symbols item ++ itemSymbols items)
  | .object [] => [.openBrace, .closeBrace]
  | .object ((key, value) :: members) =>
      .openBrace :: .scalar (.string key) :: .colon :: (symbols value ++ memberSymbols members)
  | value => [.scalar value]

def itemSymbols : List Json → List Symbol
  | [] => [.closeBracket]
  | item :: items => .comma :: (symbols item ++ itemSymbols items)

def memberSymbols : List (String × Json) → List Symbol
  | [] => [.closeBrace]
  | (key, value) :: members =>
      .comma :: .scalar (.string key) :: .colon :: (symbols value ++ memberSymbols members)

end

theorem ends_newline (indent : Nat) (after : List Char) : Ends (newline indent after) := by
  rintro c ⟨⟩
  decide

theorem ends_writeItems (indent : Nat) (items : List Json) (after : List Char) :
    Ends (writeItems indent items after) := by
  cases items with
  | nil => exact ends_newline _ _
  | cons item items => rintro c ⟨⟩; decide

theorem ends_writeMembers (indent : Nat) (members : List (String × Json)) (after : List Char) :
    Ends (writeMembers indent members after) := by
  cases members with
  | nil => exact ends_newline _ _
  | cons member members => rintro c ⟨⟩; decide

theorem symbolsOf?_punct {c : Char} {s : Symbol}
    (punct : (c, s) ∈ [('[', Symbol.openBracket), (']', .closeBracket), ('{', .openBrace),
      ('}', .closeBrace), (':', .colon), (',', .comma)]) (after : List Char) :
    symbolsOf? (c :: after) = (symbolsOf? after).map (s :: ·) := by
  refine @symbolsOf?_symbol c [] after s ?_
  simp only [List.mem_cons, Prod.mk.injEq, List.not_mem_nil, or_false] at punct
  obtain ⟨rfl, rfl⟩ | ⟨rfl, rfl⟩ | ⟨rfl, rfl⟩ | ⟨rfl, rfl⟩ | ⟨rfl, rfl⟩ | ⟨rfl, rfl⟩ := punct <;> rfl

mutual

theorem symbolsOf?_write (indent : Nat) {after : List Char} (ends : Ends after) :
    ∀ {value : Json}, value.Natural →
      symbolsOf? (value.write indent after) = (symbolsOf? after).map (value.symbols ++ ·)
  | .null, _ => symbolsOf?_word ['u', 'l', 'l'] rfl (by decide) rfl ends
  | .bool true, _ => symbolsOf?_word ['r', 'u', 'e'] rfl (by decide) rfl ends
  | .bool false, _ => symbolsOf?_word ['a', 'l', 's', 'e'] rfl (by decide) rfl ends
  | .nat n, _ => symbolsOf?_nat n ends
  | .string s, _ => symbolsOf?_string s after
  | .array [], _ => by
      rw [write, symbolsOf?_punct (s := .openBracket) (by simp),
        symbolsOf?_punct (s := .closeBracket) (by simp), Option.map_map]
      rfl
  | .array (item :: items), natural => by
      rw [Natural, NaturalItems] at natural
      rw [write, symbolsOf?_punct (s := .openBracket) (by simp), symbolsOf?_newline,
        symbolsOf?_write (indent + 1) (ends_writeItems indent items after) natural.1,
        symbolsOf?_writeItems indent after natural.2, Option.map_map, Option.map_map, symbols]
      simp [Function.comp_def]
  | .object [], _ => by
      rw [write, symbolsOf?_punct (s := .openBrace) (by simp),
        symbolsOf?_punct (s := .closeBrace) (by simp), Option.map_map]
      rfl
  | .object ((key, value) :: members), natural => by
      rw [Natural, NaturalMembers] at natural
      rw [write, symbolsOf?_punct (s := .openBrace) (by simp), symbolsOf?_newline,
        symbolsOf?_string, symbolsOf?_punct (s := .colon) (by simp), symbolsOf?_space (c := ' ') rfl,
        symbolsOf?_write (indent + 1) (ends_writeMembers indent members after) natural.1,
        symbolsOf?_writeMembers indent after natural.2, symbols]
      simp [Function.comp_def]

theorem symbolsOf?_writeItems (indent : Nat) (after : List Char) :
    ∀ {items : List Json}, NaturalItems items →
      symbolsOf? (writeItems indent items after) = (symbolsOf? after).map (itemSymbols items ++ ·)
  | [], _ => by
      rw [writeItems, symbolsOf?_newline, symbolsOf?_punct (s := .closeBracket) (by simp)]
      rfl
  | item :: items, natural => by
      rw [NaturalItems] at natural
      rw [writeItems, symbolsOf?_punct (s := .comma) (by simp), symbolsOf?_newline,
        symbolsOf?_write (indent + 1) (ends_writeItems indent items after) natural.1,
        symbolsOf?_writeItems indent after natural.2, itemSymbols]
      simp [Function.comp_def]

theorem symbolsOf?_writeMembers (indent : Nat) (after : List Char) :
    ∀ {members : List (String × Json)}, NaturalMembers members →
      symbolsOf? (writeMembers indent members after) =
        (symbolsOf? after).map (memberSymbols members ++ ·)
  | [], _ => by
      rw [writeMembers, symbolsOf?_newline, symbolsOf?_punct (s := .closeBrace) (by simp)]
      rfl
  | (key, value) :: members, natural => by
      rw [NaturalMembers] at natural
      rw [writeMembers, symbolsOf?_punct (s := .comma) (by simp), symbolsOf?_newline,
        symbolsOf?_string, symbolsOf?_punct (s := .colon) (by simp), symbolsOf?_space (c := ' ') rfl,
        symbolsOf?_write (indent + 1) (ends_writeMembers indent members after) natural.1,
        symbolsOf?_writeMembers indent after natural.2, memberSymbols]
      simp [Function.comp_def]

end

theorem symbols_head (value : Json) :
    ∃ s more, value.symbols = s :: more ∧ s ≠ .closeBracket := by
  unfold symbols
  split <;> exact ⟨_, _, rfl, by simp⟩

mutual

theorem value?_symbols (rest : List Symbol) : ∀ (value : Json) {bound : Nat},
    value.symbols.length ≤ bound → value? bound (value.symbols ++ rest) = some (value, rest)
  | .null, _ + 1, _ | .bool _, _ + 1, _ | .nat _, _ + 1, _ | .numeral _, _ + 1, _
  | .string _, _ + 1, _ | .array [], _ + 1, _ | .object [], _ + 1, _ => rfl
  | .array (item :: items), bound + 1, enough => by
      obtain ⟨s, more, eq, other⟩ := symbols_head item
      have within : item.symbols.length + (itemSymbols items).length ≤ bound := by
        simpa [symbols] using enough
      have inside := items?_symbols rest item items within
      rw [symbols, List.cons_append, List.append_assoc, eq, List.cons_append,
        value?.eq_4 _ _ (by simp [other]), ← List.cons_append, ← eq, inside]
      rfl
  | .object ((key, value) :: members), bound + 1, enough => by
      have within : value.symbols.length + (memberSymbols members).length ≤ bound := by
        simp only [symbols, List.length_cons, List.length_append] at enough
        omega
      have inside := members?_symbols rest key value members within
      rw [symbols, List.cons_append, List.cons_append, List.cons_append, List.append_assoc,
        value?.eq_6 _ _ (by simp), inside]
      rfl

theorem items?_symbols (rest : List Symbol) : ∀ (item : Json) (items : List Json) {bound : Nat},
    item.symbols.length + (itemSymbols items).length ≤ bound →
      items? bound (item.symbols ++ (itemSymbols items ++ rest)) = some (item :: items, rest)
  | item, [], bound + 1, enough => by
      have first := value?_symbols (itemSymbols [] ++ rest) item (Nat.le_of_succ_le_succ enough)
      rw [items?, first]
      rfl
  | item, next :: items, bound + 1, enough => by
      simp only [itemSymbols, List.length_cons, List.length_append] at enough
      have here : item.symbols.length ≤ bound := by omega
      have after : next.symbols.length + (itemSymbols items).length ≤ bound := by omega
      have first := value?_symbols (itemSymbols (next :: items) ++ rest) item here
      have later := items?_symbols rest next items after
      rw [items?, first, itemSymbols, List.cons_append, List.append_assoc]
      simp only [Option.bind_eq_bind, Option.bind_some, later]
      rfl

theorem members?_symbols (rest : List Symbol) (key : String) :
    ∀ (value : Json) (members : List (String × Json)) {bound : Nat},
      value.symbols.length + (memberSymbols members).length ≤ bound →
        members? bound (.scalar (.string key) :: .colon ::
          (value.symbols ++ (memberSymbols members ++ rest))) = some ((key, value) :: members, rest)
  | value, [], bound + 1, enough => by
      have first := value?_symbols (memberSymbols [] ++ rest) value (Nat.le_of_succ_le_succ enough)
      rw [members?, first]
      rfl
  | value, (next, inner) :: members, bound + 1, enough => by
      simp only [memberSymbols, List.length_cons, List.length_append] at enough
      have here : value.symbols.length ≤ bound := by omega
      have after : inner.symbols.length + (memberSymbols members).length ≤ bound := by omega
      have first := value?_symbols (memberSymbols ((next, inner) :: members) ++ rest) value here
      have later := members?_symbols rest next inner members after
      rw [members?, first, memberSymbols, List.cons_append, List.cons_append, List.cons_append,
        List.append_assoc]
      simp only [Option.bind_eq_bind, Option.bind_some, later]
      rfl

end

/-- A value is read back from its text, at any depth of the layout. -/
theorem read?_write (indent : Nat) {value : Json} (natural : value.Natural) :
    read? (value.write indent []) = some value := by
  have ends : Ends [] := by rintro c ⟨⟩
  have cuts := symbolsOf?_write indent ends natural
  have whole := value?_symbols [] value (Nat.le_succ value.symbols.length)
  simp only [List.append_nil] at cuts whole
  rw [read?, show symbols? (tiles readLexeme 0 (value.write indent [])) = some value.symbols from
    cuts.trans (by simp [symbolsOf?, tiles, tilesAfter, symbols?])]
  simp only [Option.bind_eq_bind, Option.bind_some, whole]
  rfl

end UmkaSyntax.Json
