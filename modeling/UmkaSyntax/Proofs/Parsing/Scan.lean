import Mathlib.Tactic.Tauto
import UmkaSyntax.Parsing.State

namespace UmkaSyntax

def Token.IsOpening (t : Token) : Prop :=
  t.kind ∈ [TokenKind.punct .leftParen, .punct .leftBracket, .punct .leftBrace]

def Token.IsClosing (t : Token) : Prop :=
  t.kind ∈ [TokenKind.punct .rightParen, .punct .rightBracket, .punct .rightBrace]

instance : DecidablePred Token.IsOpening := fun _ => inferInstanceAs (Decidable (_ ∈ _))

instance : DecidablePred Token.IsClosing := fun _ => inferInstanceAs (Decidable (_ ∈ _))

def EvenBrackets (tokens : List Token) : Prop :=
  tokens.countP (·.IsOpening) = tokens.countP (·.IsClosing)

/-- From an opening bracket to the first token with which as many brackets close as open, or to the
end where none is such. The second list is what follows. -/
inductive Region : List Token → List Token → Prop
  | closed {opening closing : Token} {body after : List Token} :
      opening.IsOpening → closing.IsClosing → EvenBrackets (opening :: (body ++ [closing])) →
      (∀ front, front <+: body → ¬EvenBrackets (opening :: front)) →
      Region (opening :: (body ++ [closing])) after
  | left {opening : Token} {body : List Token} :
      opening.IsOpening → (∀ front, front <+: body → ¬EvenBrackets (opening :: front)) →
      Region (opening :: body) []

theorem Region.head {region after : List Token} (encloses : Region region after) :
    ∃ opening body, region = opening :: body ∧ opening.IsOpening := by
  cases encloses with
  | closed opening => exact ⟨_, _, rfl, opening⟩
  | left opening => exact ⟨_, _, rfl, opening⟩

theorem Region.unique {left right after other : List Token} (a : Region left after)
    (b : Region right other) (same : left ++ after = right ++ other) : left = right := by
  cases a with
  | @closed opening closing body after _ _ even first =>
      cases b with
      | @closed opening' closing' body' other _ _ even' first' =>
          obtain ⟨rfl, tails⟩ := List.cons.inj same
          obtain within | within := List.prefix_or_prefix_of_prefix
            (List.prefix_append (body ++ [closing]) after) ⟨other, tails.symm⟩
          · obtain eq | shorter := List.prefix_concat_iff.mp within
            · rw [eq]
            · exact absurd even (first' _ shorter)
          · obtain eq | shorter := List.prefix_concat_iff.mp within
            · rw [eq]
            · exact absurd even' (first _ shorter)
      | left _ none =>
          obtain ⟨rfl, tails⟩ := List.cons.inj same
          exact absurd even (none _ ⟨after, tails.trans (List.append_nil _)⟩)
  | @left opening body _ none =>
      cases b with
      | @closed opening' closing' body' other _ _ even' =>
          obtain ⟨rfl, tails⟩ := List.cons.inj same
          exact absurd even' (none _ ⟨other, tails.symm.trans (List.append_nil _)⟩)
      | left => rwa [List.append_nil, List.append_nil] at same

def SyncSet.Stops (sync : SyncSet) (t : Token) : Prop :=
  t.kind ∈ [TokenKind.semicolon, .newline, .endOfInput] ∨
    match sync with
    | .topLevel => t.kind = .name ∧ t.text ∈ ["import", "const", "var", "type", "fn"]
    | .block => t.kind = .punct .rightBrace ∨
        t.kind = .name ∧ t.text ∈ ["const", "var", "type", "fn"]
    | .group => t.kind = .punct .rightParen

/-- The scan passes over the tokens of the first list and stops in front of the second. -/
inductive Scan (sync : SyncSet) : List Token → List Token → Prop
  | stop {rest : List Token} : (∀ t ∈ rest.head?, sync.Stops t) → Scan sync [] rest
  | pass {t : Token} {skipped rest : List Token} :
      ¬sync.Stops t → ¬t.IsOpening → Scan sync skipped rest → Scan sync (t :: skipped) rest
  | jump {region skipped rest : List Token} :
      Region region (skipped ++ rest) → Scan sync skipped rest → Scan sync (region ++ skipped) rest

namespace State

theorem opens_iff {t : Token} : opens t = true ↔ t.IsOpening := by
  obtain ⟨kind, span, text, leading, trailing⟩ := t
  cases kind <;> simp [opens, Token.IsOpening, Punct.opens, or_assoc]

theorem closes_iff {t : Token} : closes t = true ↔ t.IsClosing := by
  obtain ⟨kind, span, text, leading, trailing⟩ := t
  cases kind <;> simp [closes, Token.IsClosing, Punct.closes, or_assoc]

theorem ofSpelling?_iff {word : String} {k : Keyword} :
    Keyword.ofSpelling? word = some k ↔ word = k.spelling := by
  constructor
  · intro found
    have spells := List.find?_some (p := fun l : Keyword => l.spelling == word) found
    exact (beq_iff_eq.mp spells).symm
  · rintro rfl
    cases k <;> rfl

theorem holds_keyword {k : Keyword} {t : Token} {more : List Token} :
    (Look.keyword k).holds (t :: more) = true ↔ t.kind = .name ∧ t.text = k.spelling := by
  simp [Look.holds, ofSpelling?_iff]

theorem stops_iff {sync : SyncSet} {t : Token} {more : List Token} :
    sync.look.holds (t :: more) = true ↔ sync.Stops t := by
  have declarations : Keyword.declarations = [.imports, .const, .var, .type, .fn] := rfl
  have either : ∀ a b : Look, (Look.either a b).holds (t :: more) = true ↔
      a.holds (t :: more) = true ∨ b.holds (t :: more) = true := by simp [Look.holds]
  have kind : ∀ k, (Look.kind k).holds (t :: more) = true ↔ t.kind = k := by simp [Look.holds]
  unfold SyncSet.Stops SyncSet.look
  cases sync <;>
    simp only [declarations, List.map_cons, List.map_nil, Look.anyOf, Look.terminator, Look.newline,
      Look.atEnd, Look.punct, either, kind, holds_keyword, Keyword.spelling, List.mem_cons,
      List.not_mem_nil, or_false] <;>
    tauto

theorem not_stops_of_isOpening {sync : SyncSet} {t : Token} (opening : t.IsOpening) :
    ¬sync.Stops t := by
  obtain ⟨kind, span, text, leading, trailing⟩ := t
  simp only [Token.IsOpening, List.mem_cons, List.not_mem_nil, or_false] at opening
  obtain rfl | rfl | rfl := opening <;> cases sync <;> simp [SyncSet.Stops]

def Closes (depth : Nat) (tokens : List Token) : Prop :=
  tokens.countP (·.IsClosing) = tokens.countP (·.IsOpening) + depth

theorem not_closes_nil (depth : Nat) : ¬Closes (depth + 1) [] := by simp [Closes]

theorem not_isClosing {t : Token} (opening : t.IsOpening) : ¬t.IsClosing := by
  obtain ⟨kind, span, text, leading, trailing⟩ := t
  simp only [Token.IsOpening, List.mem_cons, List.not_mem_nil, or_false] at opening
  obtain rfl | rfl | rfl := opening <;> simp [Token.IsClosing]

theorem closes_opening {t : Token} (opening : t.IsOpening) {depth : Nat} {tokens : List Token} :
    Closes depth (t :: tokens) ↔ Closes (depth + 1) tokens := by
  simp only [Closes, List.countP_cons, opening, not_isClosing opening, decide_true, decide_false]
  grind

theorem closes_closing {t : Token} (closing : t.IsClosing) {depth : Nat} {tokens : List Token} :
    Closes (depth + 1) (t :: tokens) ↔ Closes depth tokens := by
  have other : ¬t.IsOpening := fun opening => not_isClosing opening closing
  simp only [Closes, List.countP_cons, closing, other, decide_true, decide_false]
  grind

theorem closes_other {t : Token} (noOpening : ¬t.IsOpening) (noClosing : ¬t.IsClosing) {depth : Nat}
    {tokens : List Token} : Closes depth (t :: tokens) ↔ Closes depth tokens := by
  simp [Closes, noOpening, noClosing]

theorem evenBrackets_iff {t : Token} (opening : t.IsOpening) {tokens : List Token} :
    EvenBrackets (t :: tokens) ↔ Closes 1 tokens := by
  rw [← closes_opening opening]
  exact eq_comm

/-- The number of tokens that are skipped where `depth` brackets are open: up to the first token with
which they are closed, and from there on as outside of brackets, or else all. -/
inductive Leaves (stop : Look) (depth : Nat) : List Token → Nat → Prop
  | closed {body after : List Token} {closing : Token} :
      closing.IsClosing → Closes depth (body ++ [closing]) →
      (∀ front, front <+: body → ¬Closes depth front) →
      Leaves stop depth (body ++ closing :: after) (body.length + 1 + skipLength stop 0 after)
  | left {tokens : List Token} :
      (∀ front, front <+: tokens → ¬Closes depth front) → Leaves stop depth tokens tokens.length

theorem Leaves.cons {stop : Look} {depth inside count : Nat} {t : Token} {tokens : List Token}
    (leaves : Leaves stop inside tokens count)
    (shift : ∀ {rest}, Closes (depth + 1) (t :: rest) ↔ Closes inside rest) :
    Leaves stop (depth + 1) (t :: tokens) (count + 1) := by
  have fronts : ∀ {body}, (∀ front, front <+: body → ¬Closes inside front) →
      ∀ front, front <+: t :: body → ¬Closes (depth + 1) front := by
    intro body none front isFront
    obtain rfl | ⟨inner, rfl, within⟩ := List.prefix_cons_iff.mp isFront
    · exact not_closes_nil depth
    · exact shift.not.mpr (none inner within)
  cases leaves with
  | @closed body after closing closes level none =>
      have whole := @Leaves.closed stop (depth + 1) (t :: body) after closing closes
        (shift.mpr level) (fronts none)
      have counts : (t :: body).length + 1 + skipLength stop 0 after =
          body.length + 1 + skipLength stop 0 after + 1 := by
        rw [List.length_cons]
        omega
      rwa [counts] at whole
  | left none => exact .left (fronts none)

theorem leaves_skipLength (stop : Look) (depth : Nat) (tokens : List Token) :
    Leaves stop (depth + 1) tokens (skipLength stop (depth + 1) tokens) := by
  induction tokens generalizing depth with
  | nil => exact .left (by simp [not_closes_nil])
  | cons t tokens ih =>
      rw [skipLength]
      by_cases opening : t.IsOpening
      · rw [if_pos (opens_iff.mpr opening)]
        exact (ih (depth + 1)).cons (closes_opening opening)
      rw [if_neg (mt opens_iff.mp opening)]
      by_cases closing : t.IsClosing
      · rw [if_pos (closes_iff.mpr closing)]
        cases depth with
        | zero =>
            have level : Closes 1 [t] := (closes_closing closing).mpr rfl
            have closed := @Leaves.closed stop 1 [] tokens t closing level (by simp [not_closes_nil])
            rwa [List.length_nil, Nat.zero_add, Nat.add_comm] at closed
        | succ depth => exact (ih depth).cons (closes_closing closing)
      · rw [if_neg (mt closes_iff.mp closing)]
        exact (ih depth).cons (closes_other opening closing)

/-- From an opening bracket the count takes what it encloses, and goes on behind that. -/
theorem exists_region (sync : SyncSet) {t : Token} (opening : t.IsOpening) (tokens : List Token) :
    ∃ region after, t :: tokens = region ++ after ∧ Region region after ∧
      skipLength sync.look 0 (t :: tokens) = region.length + skipLength sync.look 0 after := by
  have enters : skipLength sync.look 0 (t :: tokens) = skipLength sync.look 1 tokens + 1 := by
    rw [skipLength, if_neg (mt stops_iff.mp (not_stops_of_isOpening opening)),
      if_pos (opens_iff.mpr opening)]
  have leaves := leaves_skipLength sync.look 0 tokens
  rw [enters]
  generalize skipLength sync.look (0 + 1) tokens = count at leaves
  cases leaves with
  | @closed body after closing closes level none =>
      refine ⟨t :: (body ++ [closing]), after, by simp, ?_, ?_⟩
      · exact .closed opening closes ((evenBrackets_iff opening).mpr level)
          fun front isFront => (evenBrackets_iff opening).not.mpr (none front isFront)
      · simp only [List.length_cons, List.length_append, List.length_nil]
        omega
  | left none =>
      refine ⟨t :: tokens, [], (List.append_nil _).symm, ?_, rfl⟩
      exact .left opening fun front isFront => (evenBrackets_iff opening).not.mpr (none front isFront)

theorem exists_scan (sync : SyncSet) (tokens : List Token) :
    ∃ skipped rest, tokens = skipped ++ rest ∧ Scan sync skipped rest ∧
      skipLength sync.look 0 tokens = skipped.length := by
  match tokens with
  | [] => exact ⟨[], [], rfl, .stop nofun, rfl⟩
  | t :: tokens =>
      by_cases stops : sync.Stops t
      · refine ⟨[], t :: tokens, rfl, .stop (by simpa using stops), ?_⟩
        rw [skipLength, if_pos (stops_iff.mpr stops)]
        rfl
      by_cases opening : t.IsOpening
      · obtain ⟨region, after, eq, encloses, count⟩ := exists_region sync opening tokens
        obtain ⟨first, body, rfl, -⟩ := encloses.head
        have shorter : after.length ≤ tokens.length := by
          have lengths := congrArg List.length eq
          simp only [List.length_cons, List.length_append] at lengths
          omega
        obtain ⟨skipped, rest, rfl, scan, later⟩ := exists_scan sync after
        refine ⟨first :: body ++ skipped, rest, by rw [eq, List.append_assoc], .jump encloses scan, ?_⟩
        rw [count, later, List.length_append]
      · obtain ⟨skipped, rest, rfl, scan, later⟩ := exists_scan sync tokens
        refine ⟨t :: skipped, rest, rfl, .pass stops opening scan, ?_⟩
        rw [skipLength, if_neg (mt stops_iff.mp stops), if_neg (mt opens_iff.mp opening), later]
        rfl
termination_by tokens.length

theorem scan_skipped (sync : SyncSet) (tokens : List Token) :
    Scan sync (tokens.take (skipLength sync.look 0 tokens))
      (tokens.drop (skipLength sync.look 0 tokens)) := by
  obtain ⟨skipped, rest, rfl, scan, count⟩ := exists_scan sync tokens
  rwa [count, List.take_left, List.drop_left]

end State

theorem Scan.unique {sync : SyncSet} {left right rest other : List Token} (a : Scan sync left rest)
    (b : Scan sync right other) (same : left ++ rest = right ++ other) : left = right := by
  induction a generalizing right with
  | @stop rest stops =>
      cases b with
      | stop => rfl
      | pass goes => exact absurd (stops _ (by rw [← List.nil_append rest, same]; rfl)) goes
      | jump encloses =>
          obtain ⟨opening, body, rfl, opens⟩ := encloses.head
          exact absurd (stops _ (by rw [← List.nil_append rest, same]; rfl))
            (State.not_stops_of_isOpening opens)
  | @pass t skipped rest goes noOpening _ ih =>
      cases b with
      | stop stops => exact absurd (stops t (by rw [← List.nil_append other, ← same]; rfl)) goes
      | pass _ _ scan =>
          obtain ⟨rfl, tails⟩ := List.cons.inj same
          rw [ih scan tails]
      | jump encloses =>
          obtain ⟨opening, body, rfl, opens⟩ := encloses.head
          obtain ⟨rfl, -⟩ := List.cons.inj same
          exact absurd opens noOpening
  | @jump region skipped rest encloses _ ih =>
      cases b with
      | stop stops =>
          obtain ⟨opening, body, rfl, opens⟩ := encloses.head
          exact absurd (stops opening (by rw [← List.nil_append other, ← same]; rfl))
            (State.not_stops_of_isOpening opens)
      | pass _ noOpening =>
          obtain ⟨opening, body, rfl, opens⟩ := encloses.head
          obtain ⟨rfl, -⟩ := List.cons.inj same
          exact absurd opens noOpening
      | jump encloses' scan =>
          rw [List.append_assoc, List.append_assoc] at same
          obtain rfl := encloses.unique encloses' same
          rw [ih scan (List.append_cancel_left same)]

end UmkaSyntax
