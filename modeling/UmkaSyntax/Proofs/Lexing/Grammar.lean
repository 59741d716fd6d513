import UmkaSyntax.Proofs.Lexing.Likeness
import UmkaSyntax.Proofs.Lexing.Longest

namespace UmkaSyntax

/-- A literal opens with one of two characters, and closes with a double quote in both cases. -/
inductive Opens : Char → (Bool → TokenKind) → Prop
  | string : Opens '"' .string
  | character : Opens '\'' .character

def LineEnds (rest : List Char) : Prop := ∀ c ∈ rest.head?, c = '\n'

/-- What the grammar declares to stand at the front of the characters. -/
inductive Declared (cs : List Char) : PieceKind → List Char → Prop
  | whitespace {text : List Char} :
      Longest (RunOf (· ∈ [' ', '\t', '\r']) (· ∈ [' ', '\t', '\r'])) cs text →
      Declared cs (.trivia .whitespace) text
  | lineComment {body rest : List Char} :
      cs = '/' :: '/' :: (body ++ rest) → '\n' ∉ body → LineEnds rest →
      Declared cs (.trivia .lineComment) ('/' :: '/' :: body)
  /-- The closing delimiter is the first one behind the opening one. -/
  | comment {body rest : List Char} :
      cs = '/' :: '*' :: (body ++ '*' :: '/' :: rest) → ¬['*', '/'] <:+: body ++ ['*'] →
      Declared cs (.trivia .blockComment) ('/' :: '*' :: (body ++ ['*', '/']))
  | openComment {body : List Char} :
      cs = '/' :: '*' :: body → ¬['*', '/'] <:+: body →
      Declared cs (.trivia .blockComment) ('/' :: '*' :: body)
  | newline {rest : List Char} : cs = '\n' :: rest → Declared cs (.token .newline) ['\n']
  | semicolon {rest : List Char} : cs = ';' :: rest → Declared cs (.token .semicolon) [';']
  | number {kind : TokenKind} {text : List Char} :
      Longest (fun text => ∃ kind, Numeral kind text) cs text → Numeral kind text →
      Declared cs (.token kind) text
  | literal {quote : Char} {kind : Bool → TokenKind} {body rest : List Char} :
      Opens quote kind → cs = quote :: (body ++ '"' :: rest) → '"' ∉ body → '\n' ∉ body →
      Declared cs (.token (kind true)) (quote :: (body ++ ['"']))
  | openLiteral {quote : Char} {kind : Bool → TokenKind} {body rest : List Char} :
      Opens quote kind → cs = quote :: (body ++ rest) → '"' ∉ body → '\n' ∉ body → LineEnds rest →
      Declared cs (.token (kind false)) (quote :: body)
  | name {text : List Char} :
      Longest (RunOf (fun c => c.isAlpha = true ∨ c = '_') (fun c => c.isAlphanum = true ∨ c = '_'))
        cs text →
      Declared cs (.token .name) text
  | punct {p : Punct} :
      Longest (fun text => ∃ p : Punct, text = p.spelling.toList) cs p.spelling.toList →
      Declared cs (.token (.punct p)) p.spelling.toList

/-- What stands at the front of the characters: what the grammar declares, or else one character
that begins nothing. -/
inductive Stands (cs : List Char) : PieceKind → List Char → Prop
  | declared {kind : PieceKind} {text : List Char} : Declared cs kind text → Stands cs kind text
  | unknown {c : Char} {rest : List Char} : cs = c :: rest →
      (∀ kind text, ¬Declared cs kind text) → Stands cs (.token .unknown) [c]

namespace Lexeme

theorem closer_infix_cons {c : Char} {cs : List Char} :
    ['*', '/'] <:+: c :: cs ↔ (c = '*' ∧ cs.head? = some '/') ∨ ['*', '/'] <:+: cs := by
  rw [List.infix_cons_iff, List.cons_prefix_cons, List.singleton_prefix_iff_head?_eq_some,
    eq_comm (a := '*')]

theorem head_closed (body rest : List Char) :
    (body ++ '*' :: '/' :: rest).head? = (body ++ ['*']).head? := by
  cases body <;> rfl

theorem commentRest_closed {body : List Char} (first : ¬['*', '/'] <:+: body ++ ['*'])
    (rest : List Char) : commentRest (body ++ '*' :: '/' :: rest) = (true, body.length + 2) := by
  induction body with
  | nil => rfl
  | cons c body ih =>
      rw [List.cons_append, closer_infix_cons] at first
      obtain ⟨isOpen, later⟩ := not_or.mp first
      rw [List.cons_append, commentRest_cons (by rwa [head_closed]), ih later]
      rfl

theorem commentRest_open {body : List Char} (endless : ¬['*', '/'] <:+: body) :
    commentRest body = (false, body.length) := by
  induction body with
  | nil => rfl
  | cons c body ih =>
      rw [closer_infix_cons] at endless
      obtain ⟨isOpen, later⟩ := not_or.mp endless
      rw [commentRest_cons isOpen, ih later]
      rfl

theorem exists_first_closer {cs : List Char} (closed : ['*', '/'] <:+: cs) :
    ∃ body rest, cs = body ++ '*' :: '/' :: rest ∧ ¬['*', '/'] <:+: body ++ ['*'] := by
  induction cs with
  | nil => simp at closed
  | cons c cs ih =>
      by_cases here : c = '*' ∧ cs.head? = some '/'
      · obtain ⟨rfl, head⟩ := here
        obtain ⟨rest, rfl⟩ := List.head?_eq_some_iff.mp head
        exact ⟨[], rest, rfl, by decide⟩
      · obtain ⟨body, rest, rfl, first⟩ := ih ((closer_infix_cons.mp closed).resolve_left here)
        refine ⟨c :: body, rest, rfl, ?_⟩
        rw [head_closed] at here
        rw [List.cons_append, closer_infix_cons]
        exact not_or.mpr ⟨here, first⟩

theorem take_closed (body rest : List Char) :
    (body ++ '*' :: '/' :: rest).take (body.length + 2) = body ++ ['*', '/'] := by
  simp [List.take_append, List.take_of_length_le]

theorem goesOn_iff {c : Char} : (c != '"' && c != '\n') = true ↔ c ≠ '"' ∧ c ≠ '\n' := by
  simp

theorem literalBody_length {body : List Char} (quote : '"' ∉ body) (line : '\n' ∉ body)
    {rest : List Char} (stops : ∀ c ∈ rest.head?, c = '"' ∨ c = '\n') :
    runLength (fun c => c != '"' && c != '\n') (body ++ rest) = body.length := by
  have all : ∀ c ∈ body, (c != '"' && c != '\n') = true := by
    intro c mem
    exact goesOn_iff.mpr ⟨ne_of_mem_of_not_mem mem quote, ne_of_mem_of_not_mem mem line⟩
  have none : runLength (fun c => c != '"' && c != '\n') rest = 0 := by
    cases rest with
    | nil => rfl
    | cons c rest =>
        apply runLength_cons_neg
        rcases stops c rfl with rfl | rfl <;> rfl
  rw [runLength_append all, none, Nat.add_zero]

theorem literalRest_closed {body : List Char} (quote : '"' ∉ body) (line : '\n' ∉ body)
    (rest : List Char) : literalRest (body ++ '"' :: rest) = (true, body.length + 1) := by
  have stops : ∀ c ∈ ('"' :: rest).head?, c = '"' ∨ c = '\n' := by simp
  have length := literalBody_length quote line stops
  simp only [literalRest, length, List.drop_left]

theorem literalRest_open {body rest : List Char} (quote : '"' ∉ body) (line : '\n' ∉ body)
    (ends : LineEnds rest) : literalRest (body ++ rest) = (false, body.length) := by
  have length := literalBody_length quote line fun c mem => .inr (ends c mem)
  simp only [literalRest, length, List.drop_left]
  split
  · exact absurd (ends '"' rfl) (by decide)
  · rfl

theorem exists_literalBody (cs : List Char) :
    ∃ body rest, cs = body ++ rest ∧ '"' ∉ body ∧ '\n' ∉ body ∧
      (LineEnds rest ∨ ∃ more, rest = '"' :: more) := by
  induction cs with
  | nil => exact ⟨[], [], rfl, by simp, by simp, .inl (by simp [LineEnds])⟩
  | cons c cs ih =>
      by_cases quote : c = '"'
      · exact ⟨[], c :: cs, rfl, by simp, by simp, .inr ⟨cs, by rw [quote]⟩⟩
      · by_cases line : c = '\n'
        · exact ⟨[], c :: cs, rfl, by simp, by simp, .inl (by simp [LineEnds, line])⟩
        · obtain ⟨body, rest, rfl, noQuote, noLine, ends⟩ := ih
          refine ⟨c :: body, rest, rfl, ?_, ?_, ends⟩
          · simp [Ne.symm quote, noQuote]
          · simp [Ne.symm line, noLine]

theorem spelling_injective {p q : Punct} (same : p.spelling = q.spelling) : p = q := by
  cases p <;> cases q <;> first | rfl | exact absurd same (by decide)

theorem punctuation_of_front {p : Punct} {c : Char} {cs : List Char}
    (front : p.spelling.toList <+: c :: cs) :
    ∃ q n, punctuation c cs.head? = some (q, n) ∧ p.spelling.toList.length ≤ n + 1 := by
  obtain ⟨rest, eq⟩ := front
  cases p with
  | colon =>
      -- the only spelling that begins longer ones
      obtain ⟨rfl, rfl⟩ : ':' = c ∧ rest = cs := List.cons.inj eq
      by_cases colon : rest.head? = some ':'
      · exact ⟨.colonColon, 1, by rw [colon]; rfl, by decide⟩
      · by_cases equal : rest.head? = some '='
        · exact ⟨.colonEqual, 1, by rw [equal]; rfl, by decide⟩
        · exact ⟨.colon, 0, by simp only [punctuation], by decide⟩
  | _ =>
      obtain ⟨rfl, rfl⟩ := List.cons.inj eq
      exact ⟨_, _, rfl, by decide⟩

theorem longest_punctuation {c : Char} {cs : List Char} {p : Punct} {n : Nat}
    (found : punctuation c cs.head? = some (p, n)) :
    Longest (fun text => ∃ p : Punct, text = p.spelling.toList) (c :: cs) p.spelling.toList where
  front := by
    rw [punctuation_spelled found, String.toList_ofList]
    exact List.cons_prefix_cons.mpr ⟨rfl, List.take_prefix _ _⟩
  holds := ⟨p, rfl⟩
  longest := by
    rintro _ front ⟨q, rfl⟩
    obtain ⟨p', n', found', most⟩ := punctuation_of_front front
    obtain ⟨rfl, rfl⟩ := Prod.mk.inj (Option.some.inj (found'.symm.trans found))
    have within := front.length_le
    rw [punctuation_spelled found, String.toList_ofList, List.length_cons, List.length_take]
    rw [List.length_cons] at within
    omega

theorem opener_of_punctuation {c : Char} {next : Option Char} {p : Punct} {n : Nat}
    (found : punctuation c next = some (p, n)) :
    c ∈ [':', '.', '=', '*', '^', ',', '{', '}', '(', ')', '[', ']'] := by
  unfold punctuation at found
  split at found
  all_goals
    first
      | decide
      | cases found

theorem isSpace_iff {c : Char} : c ∈ [' ', '\t', '\r'] ↔ isSpace c = true := by
  simp [isSpace, isBlank, or_assoc]

theorem opensName_iff {c : Char} : (c.isAlpha = true ∨ c = '_') ↔ opensName c = true := by
  simp [opensName]

theorem continuesName_iff {c : Char} :
    (c.isAlphanum = true ∨ c = '_') ↔ continuesName c = true := by
  simp [continuesName]

theorem not_isSpace {p : Char → Bool} (space : p ' ' = false) (tab : p '\t' = false)
    (back : p '\r' = false) {c : Char} (holds : p c = true) : isSpace c = false := by
  by_contra blank
  have mem := isSpace_iff.mpr ((Bool.not_eq_false _).mp blank)
  simp only [List.mem_cons, List.not_mem_nil, or_false] at mem
  rcases mem with rfl | rfl | rfl
  · cases space.symm.trans holds
  · cases tab.symm.trans holds
  · cases back.symm.trans holds

theorem not_isDigit_of_opensName {c : Char} (name : opensName c = true) : c.isDigit = false := by
  by_contra digit
  have digit : (decide (48 ≤ c.val) && decide (c.val ≤ 57)) = true := (Bool.not_eq_false _).mp digit
  rcases opensName_iff.mpr name with letter | rfl
  · have letter : (decide (65 ≤ c.val ∧ c.val ≤ 90) ||
        decide (97 ≤ c.val) && decide (c.val ≤ 122)) = true := letter
    simp only [Bool.or_eq_true, Bool.and_eq_true, decide_eq_true_eq, UInt32.le_iff_toNat_le]
      at digit letter
    change _ ∧ c.val.toNat ≤ 57 at digit
    change (65 ≤ c.val.toNat ∧ _) ∨ (97 ≤ c.val.toNat ∧ _) at letter
    omega
  · cases digit

theorem read_space {c : Char} (space : isSpace c = true) (cs : List Char) :
    read c cs = (.trivia .whitespace true, runLength isSpace cs) := by
  rw [read, if_pos space]

theorem read_digit {c : Char} (digit : c.isDigit = true) (cs : List Char) :
    read c cs = (.token (number c cs).1, (number c cs).2) := by
  simp [read, not_isSpace rfl rfl rfl digit, digit]

theorem read_name {c : Char} (name : opensName c = true) (cs : List Char) :
    read c cs = (.token .name, runLength continuesName cs) := by
  simp [read, not_isSpace rfl rfl rfl name, not_isDigit_of_opensName name, name]

theorem read_literal {quote : Char} {kind : Bool → TokenKind} (opens : Opens quote kind)
    (cs : List Char) :
    read quote cs = (.token (kind (literalRest cs).1), (literalRest cs).2) := by
  cases opens <;> rfl

theorem read_punct {c : Char} {cs : List Char} {p : Punct} {n : Nat}
    (found : punctuation c cs.head? = some (p, n)) : read c cs = (.token (.punct p), n) := by
  have other : [':', '.', '=', '*', '^', ',', '{', '}', '(', ')', '[', ']'].all fun c =>
      !isSpace c && !c.isDigit && !opensName c && !(['"', '\'', '/', '\n', ';'].contains c) := by
    rfl
  have own := List.all_eq_true.mp other c (opener_of_punctuation found)
  simp only [Bool.and_eq_true, Bool.not_eq_true', List.contains_eq_mem, decide_eq_false_iff_not,
    List.mem_cons, List.not_mem_nil, or_false, not_or] at own
  obtain ⟨⟨⟨space, digit⟩, name⟩, rest⟩ := own
  simp [read, space, digit, name, rest, found]

end Lexeme

open Lexeme

theorem Numeral.head {kind : TokenKind} {text : List Char} (numeral : Numeral kind text) {c : Char}
    {cs : List Char} (front : text <+: c :: cs) : c.isDigit = true := by
  have begins : ∀ {ds rest : List Char}, Digits ds → ds ++ rest = c :: cs → c.isDigit = true := by
    intro ds rest digits eq
    obtain ⟨d, more, rfl⟩ := List.exists_cons_of_ne_nil digits.ne_nil
    obtain rfl := (List.cons.inj eq).1
    exact digits.1
  obtain ⟨rest, eq⟩ := front
  cases numeral with
  | whole digits => exact begins digits eq
  | hex =>
      obtain rfl := (List.cons.inj eq).1
      rfl
  | point digits | power digits => exact begins digits ((List.append_assoc ..).symm.trans eq)
  | pointPower digits =>
      rw [List.append_assoc, List.append_assoc] at eq
      exact begins digits eq

theorem Longest.opens {first later : Char → Prop} {c : Char} {cs text : List Char}
    (longest : Longest (RunOf first later) (c :: cs) text) : first c := by
  cases text with
  | nil => exact longest.holds.elim
  | cons d more =>
      obtain ⟨rest, eq⟩ := longest.front
      obtain rfl := (List.cons.inj eq).1
      exact longest.holds.1

theorem Declared.read_eq {c : Char} {cs : List Char} {kind : PieceKind} {text : List Char}
    (declared : Declared (c :: cs) kind text) :
    ∃ what n, read c cs = (what, n) ∧ what ≠ .token .unknown ∧ what.pieceKind = kind ∧
      text = c :: cs.take n := by
  -- Each form is longest or ends at a mark of its own, and the reader finds the same end.
  cases declared with
  | whitespace longest =>
      have space : isSpace c = true := isSpace_iff.mp longest.opens
      have same := longest.unique (longest_run (fun _ => isSpace_iff) longest.opens cs)
      exact ⟨_, _, read_space space cs, by simp, rfl, same⟩
  | @lineComment body rest eq line ends =>
      obtain ⟨rfl, rfl⟩ := List.cons.inj eq
      have all : ∀ c ∈ '/' :: body, (c != '\n') = true := by
        intro c mem
        rcases List.mem_cons.mp mem with rfl | mem
        · rfl
        · exact bne_iff_ne.mpr (ne_of_mem_of_not_mem mem line)
      have none : runLength (· != '\n') rest = 0 := by
        cases rest with
        | nil => rfl
        | cons c rest => exact runLength_cons_neg (by simp [ends c rfl]) rest
      have length : runLength (· != '\n') ('/' :: body ++ rest) = body.length + 1 := by
        rw [runLength_append all, none]
        rfl
      have reads : read '/' ('/' :: (body ++ rest)) =
          (.trivia .lineComment true, body.length + 1) :=
        congrArg (Lexeme.trivia .lineComment true, ·) length
      exact ⟨_, _, reads, by simp, rfl, by simp⟩
  | @comment body rest eq first =>
      obtain ⟨rfl, rfl⟩ := List.cons.inj eq
      have reads := read_comment (body ++ '*' :: '/' :: rest)
      rw [commentRest_closed first] at reads
      exact ⟨_, _, reads, by simp, rfl, by simp [take_closed]⟩
  | @openComment body eq endless =>
      obtain ⟨rfl, rfl⟩ := List.cons.inj eq
      have reads := read_comment body
      rw [commentRest_open endless] at reads
      exact ⟨_, _, reads, by simp, rfl, by simp⟩
  | newline eq =>
      obtain ⟨rfl, rfl⟩ := List.cons.inj eq
      exact ⟨.token .newline, 0, rfl, by simp, rfl, rfl⟩
  | semicolon eq =>
      obtain ⟨rfl, rfl⟩ := List.cons.inj eq
      exact ⟨.token .semicolon, 0, rfl, by simp, rfl, rfl⟩
  | number longest numeral =>
      have digit : c.isDigit = true := numeral.head longest.front
      have same := longest.unique (longest_number digit cs)
      have kind := numeral.kind_eq
      rw [same, ← (number_numeral digit cs).kind_eq] at kind
      refine ⟨_, _, read_digit digit cs, ?_, by rw [kind]; rfl, same⟩
      have free := number_free c cs
      grind
  | @literal quote kind body rest opens eq noQuote noLine =>
      obtain ⟨rfl, rfl⟩ := List.cons.inj eq
      have reads := read_literal opens (body ++ '"' :: rest)
      rw [literalRest_closed noQuote noLine] at reads
      refine ⟨_, _, reads, ?_, rfl, by simp [List.take_append, List.take_of_length_le]⟩
      cases opens <;> simp
  | @openLiteral quote kind body rest opens eq noQuote noLine ends =>
      obtain ⟨rfl, rfl⟩ := List.cons.inj eq
      have reads := read_literal opens (body ++ rest)
      rw [literalRest_open noQuote noLine ends] at reads
      refine ⟨_, _, reads, ?_, rfl, by simp⟩
      cases opens <;> simp
  | name longest =>
      have opens : opensName c = true := opensName_iff.mp longest.opens
      have same := longest.unique (longest_run (fun _ => continuesName_iff) longest.opens cs)
      exact ⟨_, _, read_name opens cs, by simp, rfl, same⟩
  | punct longest =>
      obtain ⟨q, n, found, -⟩ := punctuation_of_front longest.front
      have same := longest.unique (longest_punctuation found)
      obtain rfl := spelling_injective (String.toList_injective same)
      refine ⟨_, _, read_punct found, by simp, rfl, ?_⟩
      rw [punctuation_spelled found, String.toList_ofList]

theorem declared_literal {quote : Char} {kind : Bool → TokenKind} (opens : Opens quote kind)
    (cs : List Char) :
    Declared (quote :: cs) (.token (kind (literalRest cs).1))
      (quote :: cs.take (literalRest cs).2) := by
  obtain ⟨body, rest, rfl, noQuote, noLine, ends | ⟨more, rfl⟩⟩ := exists_literalBody cs
  · rw [literalRest_open noQuote noLine ends, List.take_left]
    exact .openLiteral opens rfl noQuote noLine ends
  · have text : (body ++ '"' :: more).take (body.length + 1) = body ++ ['"'] := by
      simp [List.take_append, List.take_of_length_le]
    rw [literalRest_closed noQuote noLine, text]
    exact .literal opens rfl noQuote noLine

theorem declared_comment (cs : List Char) :
    Declared ('/' :: '*' :: cs) (.trivia .blockComment)
      ('/' :: '*' :: cs.take (commentRest cs).2) := by
  by_cases closed : ['*', '/'] <:+: cs
  · obtain ⟨body, rest, rfl, first⟩ := exists_first_closer closed
    rw [commentRest_closed first, take_closed]
    exact .comment rfl first
  · rw [commentRest_open closed, List.take_length]
    exact .openComment rfl closed

theorem declared_line (cs : List Char) :
    Declared ('/' :: '/' :: cs) (.trivia .lineComment)
      ('/' :: '/' :: cs.take (runLength (· != '\n') cs)) := by
  have split : cs = cs.takeWhile (· != '\n') ++ cs.dropWhile (· != '\n') :=
    List.takeWhile_append_dropWhile.symm
  rw [take_runLength]
  refine .lineComment (congrArg (fun rest => '/' :: '/' :: rest) split) ?_ ?_
  · intro mem
    exact absurd (List.mem_takeWhile_imp mem) (by decide)
  · intro c head
    have stops := List.head?_dropWhile_not (· != '\n') cs
    rw [Option.mem_def.mp head] at stops
    simpa using stops

theorem declared_read {c : Char} {cs : List Char} (known : (read c cs).1 ≠ .token .unknown) :
    Declared (c :: cs) (read c cs).1.pieceKind (c :: cs.take (read c cs).2) := by
  revert known
  fun_cases read c cs with
  | case1 space =>
      intro
      exact .whitespace (longest_run (fun _ => isSpace_iff) (isSpace_iff.mpr space) cs)
  | case2 space digit kind n what =>
      intro
      have numeral := number_numeral digit cs
      have longest := longest_number digit cs
      rw [what] at numeral longest
      exact .number longest numeral
  | case3 _ _ name =>
      intro
      exact .name (longest_run (fun _ => continuesName_iff) (opensName_iff.mpr name) cs)
  | case4 _ _ _ opens closed n what =>
      intro
      subst opens
      have literal := declared_literal .string cs
      rw [what] at literal
      exact literal
  | case5 _ _ _ _ opens closed n what =>
      intro
      subst opens
      have literal := declared_literal .character cs
      rw [what] at literal
      exact literal
  | case6 _ _ _ _ _ opens =>
      intro
      obtain ⟨rfl, head⟩ := opens
      obtain ⟨more, rfl⟩ := List.head?_eq_some_iff.mp head
      exact declared_line more
  | case7 _ _ _ _ _ _ opens closed n what =>
      intro
      obtain ⟨rfl, head⟩ := opens
      obtain ⟨more, rfl⟩ := List.head?_eq_some_iff.mp head
      have comment := declared_comment more
      rw [List.drop_one, List.tail_cons] at what
      rw [what] at comment
      exact comment
  | case8 _ _ _ _ _ _ _ newline =>
      intro
      subst newline
      exact .newline rfl
  | case9 _ _ _ _ _ _ _ _ semicolon =>
      intro
      subst semicolon
      exact .semicolon rfl
  | case10 _ _ _ _ _ _ _ _ _ p n found =>
      intro
      have spelled := punctuation_spelled found
      have punct := Declared.punct (longest_punctuation found)
      rw [spelled, String.toList_ofList] at punct
      exact punct
  | case11 => exact fun known => absurd rfl known

theorem read_unknown {c : Char} {cs : List Char} (unknown : (read c cs).1 = .token .unknown) :
    read c cs = (.token .unknown, 0) := by
  revert unknown
  fun_cases read c cs with
  | case2 space digit kind n what =>
      intro unknown
      have free := number_free c cs
      rw [what] at free
      grind
  | case11 => exact fun _ => rfl
  | _ =>
      intro unknown
      cases unknown

/-- The reader of lexemes decides the lexical grammar. -/
theorem stands_iff {c : Char} {cs : List Char} {kind : PieceKind} {text : List Char} :
    Stands (c :: cs) kind text ↔
      kind = (read c cs).1.pieceKind ∧ text = c :: cs.take (read c cs).2 := by
  by_cases known : (read c cs).1 = .token .unknown
  · have none : ∀ kind text, ¬Declared (c :: cs) kind text := by
      intro kind text declared
      obtain ⟨what, n, eq, other, -⟩ := declared.read_eq
      rw [eq] at known
      exact other known
    rw [read_unknown known]
    constructor
    · intro stands
      cases stands with
      | declared declared => exact absurd declared (none _ _)
      | unknown eq =>
          obtain ⟨rfl, rfl⟩ := List.cons.inj eq
          exact ⟨rfl, rfl⟩
    · rintro ⟨rfl, rfl⟩
      exact .unknown rfl none
  · constructor
    · intro stands
      cases stands with
      | declared declared =>
          obtain ⟨what, n, eq, -, rfl, text⟩ := declared.read_eq
          rw [eq]
          exact ⟨rfl, text⟩
      | unknown eq none =>
          obtain ⟨rfl, rfl⟩ := List.cons.inj eq
          exact absurd (declared_read known) (none _ _)
    · rintro ⟨rfl, rfl⟩
      exact .declared (declared_read known)

end UmkaSyntax
