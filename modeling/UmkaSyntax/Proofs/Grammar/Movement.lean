import UmkaSyntax.Proofs.Grammar.Derivation

/-!
Where the grammar may stand still. What a rule does before it takes a token depends on that token
alone, so one can read off the grammar, one kind of token at a time, that no item of a loop ends
where it began at a token that recovery would not skip.
-/

namespace UmkaSyntax

structure Head where
  kind : TokenKind
  word : Option Keyword
  deriving DecidableEq

namespace Head

def ofTokens (tokens : List Token) : Head where
  kind := kindAhead tokens
  word := tokens.head?.bind fun t => if t.kind = .name then Keyword.ofSpelling? t.text else none

def all : List Head :=
  anyKind.map (⟨·, none⟩) ++ Keyword.all.map (⟨.name, some ·⟩)

theorem ofTokens_mem (tokens : List Token) : ofTokens tokens ∈ all := by
  have plain : ∀ kind, (⟨kind, none⟩ : Head) ∈ all := fun kind =>
    List.mem_append_left _ (List.mem_map_of_mem (mem_anyKind kind))
  cases tokens with
  | nil => exact plain _
  | cons t more =>
      by_cases isName : t.kind = .name
      · cases word : Keyword.ofSpelling? t.text with
        | none => simpa [ofTokens, kindAhead, isName, word] using plain .name
        | some k =>
            have known : (⟨.name, some k⟩ : Head) ∈ all :=
              List.mem_append_right _ (List.mem_map_of_mem (by cases k <;> decide))
            simpa [ofTokens, kindAhead, isName, word] using known
      · simpa [ofTokens, kindAhead, isName] using plain t.kind

theorem atEnd_of_tail {tokens : List Token} (same : tokens.tail = tokens) :
    ((ofTokens tokens).kind == .endOfInput) = true := by
  cases tokens with
  | nil => rfl
  | cons t more => exact absurd (congrArg List.length same) (by simp)

end Head

def Look.verdict (head : Head) : Look → Option Bool
  | always => some true
  | kind k => some (head.kind == k)
  | keyword k => some (head.word == some k)
  | builtin _ => if head.kind = .name then none else some false
  | next _ => none
  | both a b => match a.verdict head, b.verdict head with
      | some false, _ | _, some false => some false
      | some true, some true => some true
      | _, _ => none
  | either a b => match a.verdict head, b.verdict head with
      | some true, _ | _, some true => some true
      | some false, some false => some false
      | _, _ => none
  | not look => (look.verdict head).map (!·)

theorem Look.holds_of_verdict {look : Look} {tokens : List Token} {b : Bool}
    (verdict : look.verdict (Head.ofTokens tokens) = some b) : look.holds tokens = b := by
  induction look generalizing b with
  | always => exact Option.some.inj verdict
  | kind k => exact Option.some.inj verdict
  | keyword k =>
      rw [← Option.some.inj verdict]
      cases tokens with
      | nil => rfl
      | cons t more =>
          by_cases isName : t.kind = .name <;> simp [holds, Head.ofTokens, isName]
  | builtin family =>
      simp only [Look.verdict] at verdict
      split at verdict
      · cases verdict
      · rename_i other
        rw [← Option.some.inj verdict]
        cases tokens with
        | nil => rfl
        | cons t more =>
            have other : t.kind ≠ .name := other
            simp [holds, other]
  | next => cases verdict
  | both a b iha ihb =>
      simp only [Look.verdict] at verdict
      split at verdict
      · rename_i ha
        rw [holds, iha ha, ← Option.some.inj verdict, Bool.false_and]
      · rename_i hb _
        rw [holds, ihb hb, ← Option.some.inj verdict, Bool.and_false]
      · rename_i ha hb
        rw [holds, iha ha, ihb hb, ← Option.some.inj verdict, Bool.and_true]
      · cases verdict
  | either a b iha ihb =>
      simp only [Look.verdict] at verdict
      split at verdict
      · rename_i ha
        rw [holds, iha ha, ← Option.some.inj verdict, Bool.true_or]
      · rename_i hb _
        rw [holds, ihb hb, ← Option.some.inj verdict, Bool.or_true]
      · rename_i ha hb
        rw [holds, iha ha, ihb hb, ← Option.some.inj verdict, Bool.or_false]
      · cases verdict
  | not look ih =>
      obtain ⟨c, inner, rfl⟩ := Option.map_eq_some_iff.mp verdict
      rw [holds, ih inner]

/-- How a rule may end before it has taken a token. -/
structure Still where
  succeeds : Bool
  fails : Bool
  deriving DecidableEq

namespace Still

def or (a b : Still) : Still := ⟨a.succeeds || b.succeeds, a.fails || b.fails⟩

def andThen (first second : Still) : Still :=
  ⟨first.succeeds && second.succeeds, first.fails || first.succeeds && second.fails⟩

end Still

namespace Rule

def still (head : Head) : Rule → Still
  | done | report _ | announce | label _ | labelNext _ | retag _ | items _ _ _ => ⟨true, false⟩
  | fail _ => ⟨false, true⟩
  | take | takeKeyword | literal _ _ => ⟨head.kind == .endOfInput, false⟩
  | takeWhile look => ⟨head.kind == .endOfInput || look.verdict head != some true, false⟩
  | seq first second => (first.still head).andThen (second.still head)
  | branch look yes no => match look.verdict head with
      | some true => yes.still head
      | some false => no.still head
      | none => (yes.still head).or (no.still head)
  | node _ body | wrapLast _ body => body.still head
  | nested _ => ⟨false, true⟩
  | separated go item before _ =>
      let round := (item.still head).andThen (before.still head)
      ⟨go.verdict head != some true || round.succeeds, round.fails⟩
  | recovering _ item => ⟨(item.still head).succeeds || (item.still head).fails, false⟩

def stopsAt (stop : Look) (head : Head) : Bool :=
  head.kind == .endOfInput || Look.terminator.verdict head == some true ||
    stop.verdict head == some true

/-- Whether the item of a loop takes a token, or fails at one that recovery skips. -/
def itemMoves (stop : Look) (sync : SyncSet) (item : Rule) : Bool :=
  Head.all.all fun head => stopsAt stop head ||
    !(item.still head).succeeds && (!(item.still head).fails || sync.look.verdict head == some false)

def moves : Rule → Bool
  | seq first second => first.moves && second.moves
  | branch _ yes no => yes.moves && no.moves
  | node _ body | wrapLast _ body => body.moves
  | separated _ item before after => item.moves && before.moves && after.moves
  | recovering _ item => item.moves
  | items stop sync item => itemMoves stop sync item && item.moves
  | _ => true

def nestsInside (inside : Bool) : Rule → Bool
  | nested _ => inside
  | node _ body | wrapLast _ body => body.nestsInside true
  | seq first second => first.nestsInside inside && second.nestsInside inside
  | branch _ yes no => yes.nestsInside inside && no.nestsInside inside
  | separated _ item before after =>
      item.nestsInside inside && before.nestsInside inside && after.nestsInside inside
  | recovering _ item | items _ _ item => item.nestsInside inside
  | _ => true

end Rule

theorem Grammar.categoryRule_takes (category : Category) :
    ∀ head ∈ Head.all, ((categoryRule category).still head).succeeds = false := by
  cases category <;> decide

theorem Grammar.categoryRule_moves (category : Category) :
    (categoryRule category).moves = true ∧ (categoryRule category).nestsInside false = true := by
  cases category <;> decide

theorem Entry.rule_moves (entry : Entry) : entry.rule.moves = true := by
  cases entry <;> decide

end UmkaSyntax
