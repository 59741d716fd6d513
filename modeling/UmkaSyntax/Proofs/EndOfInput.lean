import UmkaSyntax.Proofs.Error.Order
import UmkaSyntax.Proofs.Parsing.Blame
import UmkaSyntax.Proofs.Termination

/-!
Errors at the end of the input. What the grammar expects and what it finds at the end is an error of
its own kind; the one error that can stand at the end under another kind is that of the nesting limit.
-/

namespace UmkaSyntax

open State

namespace Rule

def issues : Rule → List SyntaxIssue
  | fail issue | report issue => [issue]
  | seq first second => first.issues ++ second.issues
  | branch _ yes no => yes.issues ++ no.issues
  | node _ body | wrapLast _ body => body.issues
  | separated _ item before after => item.issues ++ before.issues ++ after.issues
  | recovering _ item | items _ _ item => item.issues
  | _ => []

end Rule

theorem Grammar.trailing_notMem_issues {rule : Rule} (mem : rule ∈ rules) :
    SyntaxIssue.trailing ∉ rule.issues := by
  have every : ∀ rule ∈ rules, SyntaxIssue.trailing ∉ rule.issues := by decide
  exact every rule mem

namespace State

def Untrailed (s : State) : Prop := ∀ f, .syntactic f ∈ s.errors.toList → f.issue ≠ .trailing

variable {s t : State}

theorem Untrailed.of_errors (untrailed : s.Untrailed) (same : t.errors = s.errors) :
    t.Untrailed := by
  rwa [Untrailed, same]

theorem Untrailed.record (untrailed : s.Untrailed) {e : SyntaxError} (other : e.issue ≠ .trailing) :
    (s.record (.syntactic e)).Untrailed := by
  intro f mem
  rw [State.record, Array.toList_push] at mem
  obtain mem | same := List.mem_append.mp mem
  · exact untrailed f mem
  · cases List.mem_singleton.mp same
    exact other

theorem syntactic_mem_discard {count : Nat} {f : SyntaxError}
    (mem : .syntactic f ∈ (s.discard count).errors.toList) : .syntactic f ∈ s.errors.toList := by
  unfold discard at mem
  dsimp only at mem
  split at mem
  · exact mem
  · exact syntactic_mem_recordLexical mem

theorem Untrailed.recover (untrailed : s.Untrailed) {e : SyntaxError} (other : e.issue ≠ .trailing)
    (depth : Nat) (sync : SyncSet) : (s.recover e depth sync).Untrailed := by
  have recorded : ((s.record (.syntactic e)).onBuilder (Builder.closeTo depth)).Untrailed :=
    untrailed.record other
  simp only [State.recover]
  split
  · exact fun f mem => recorded f (syntactic_mem_discard mem)
  · exact fun f mem => recorded f (syntactic_mem_discard mem)

end State

namespace Outcome

def Untrailed : Outcome → Prop
  | ok s => s.Untrailed
  | failed e s => s.Untrailed ∧ e.issue ≠ .trailing

theorem Untrailed.closed {outcome : Outcome} (untrailed : outcome.Untrailed) :
    (outcome.andThen fun s => .ok (s.onBuilder Builder.close)).Untrailed := by
  cases outcome with
  | ok s => exact untrailed
  | failed e s => exact untrailed

theorem Untrailed.recovered {outcome : Outcome} (untrailed : outcome.Untrailed) (depth : Nat)
    (sync : SyncSet) : (outcome.recovered depth sync).Untrailed := by
  cases outcome with
  | ok s => exact untrailed
  | failed e s => exact untrailed.1.recover untrailed.2 depth sync

end Outcome

theorem Rule.Ends.untrailed {rule : Rule} {s : State} {outcome : Outcome} (ends : Ends rule s outcome)
    (absent : SyntaxIssue.trailing ∉ rule.issues) (untrailed : s.Untrailed) : outcome.Untrailed := by
  induction ends with
  | done | announce | takeWhileStop | label | labelNext | retag | noItem => exact untrailed
  | @fail issue =>
      have other : issue ≠ .trailing := fun same => absent (by simp [issues, same])
      exact ⟨untrailed, other⟩
  | @report issue =>
      have other : issue ≠ .trailing := fun same => absent (by simp [issues, same])
      exact untrailed.record other
  | take => exact untrailed.of_errors (errors_takeAs _ _)
  | takeKeyword => exact untrailed.of_errors (errors_takeAs _ _)
  | literal => exact fun f mem => untrailed f (syntactic_mem_takeLiteral mem)
  | tooDeep => exact ⟨untrailed, nofun⟩
  | nested _ _ ih =>
      exact ih (Grammar.trailing_notMem_issues (List.mem_append_right _ (by cases ‹Category› <;> simp)))
        untrailed
  | takeWhileMore _ _ _ ih => exact ih absent (untrailed.of_errors (errors_takeAs _ _))
  | seq _ _ ih₁ ih₂ =>
      simp only [issues, List.mem_append, not_or] at absent
      exact ih₂ absent.2 (ih₁ absent.1 untrailed)
  | seqFailed _ ih =>
      simp only [issues, List.mem_append, not_or] at absent
      exact ih absent.1 untrailed
  | yes _ _ ih =>
      simp only [issues, List.mem_append, not_or] at absent
      exact ih absent.1 untrailed
  | no _ _ ih =>
      simp only [issues, List.mem_append, not_or] at absent
      exact ih absent.2 untrailed
  | node _ ih => exact (ih absent untrailed).closed
  | wrapLast _ ih => exact (ih absent untrailed).closed
  | itemFailed _ _ ih =>
      simp only [issues, List.mem_append, not_or] at absent ih
      exact ih absent.1 untrailed
  | lastItem _ _ _ ih =>
      simp only [issues, List.mem_append, not_or] at absent ih
      exact ih absent.1 untrailed
  | gapFailed _ _ _ _ ih₁ ih₂ =>
      simp only [issues, List.mem_append, not_or] at absent ih₁
      have first : State.Untrailed _ := ih₁ absent.1 untrailed
      exact ih₂ absent.2 (first.of_errors (errors_takeAs _ _))
  | nextItem _ _ _ _ _ _ ih₁ ih₂ ih₃ =>
      have absent' := absent
      simp only [issues, List.mem_append, not_or] at absent' ih₁
      have first : State.Untrailed _ := ih₁ absent'.1 untrailed
      exact ih₃ absent (ih₂ absent'.2 (first.of_errors (errors_takeAs _ _)))
  | recovering _ ih => exact (ih absent untrailed).recovered _ _
  | noMoreItems _ _ ih => exact ih (by simp [terminators, issues]) untrailed
  | moreItems _ _ _ _ _ ih₁ ih₂ ih₃ =>
      exact ih₃ absent (ih₂ absent (ih₁ (by simp [terminators, issues]) untrailed))

/-- The error has the kind of an unexpected end exactly where it is about the end of the source;
everywhere else it is a plain syntax error, about a token of the source. -/
def ParseError.Classified (source : String) (e : ParseError) : Prop :=
  (e.kind = .unexpectedEnd ↔ e.span = Span.emptyAt source.utf8ByteSize) ∧
    (e.kind ≠ .unexpectedEnd → e.kind = .syntactic ∧
      ∃ t ∈ (TokenStream.ofText source.toList).tokens, e.span = t.span ∧ t.span.start < t.span.stop)

/-- The nesting limit was met where the source ends. -/
def SyntaxError.TooDeepAtEnd (e : SyntaxError) : Prop :=
  e.issue = .tooDeep ∧ e.found.kind = .endOfInput

theorem State.finish_trailing {outcome : Outcome} (untrailed : outcome.Untrailed)
    (proper : outcome.final.Proper) {f : SyntaxError}
    (mem : .syntactic f ∈ (State.finish outcome).errors.toList) (trailing : f.issue = .trailing) :
    f.found.kind ≠ .endOfInput := by
  cases outcome with
  | ok s =>
      have steps : Steps s (s.closeToRoot.takeWhile .terminator) :=
        .head (.closeTo s 1) (takeWhile_steps _ _)
      have before : (s.closeToRoot.takeWhile .terminator).Untrailed :=
        untrailed.of_errors (errors_takeUpTo .terminator _ s.closeToRoot)
      simp only [finish] at mem
      generalize s.closeToRoot.takeWhile .terminator = t at steps before mem
      replace mem := syntactic_mem_discard mem
      split at mem
      · exact absurd trailing (before f mem)
      · rename_i some
        rw [State.record, Array.toList_push, List.mem_append, List.mem_singleton] at mem
        obtain mem | same := mem
        · exact absurd trailing (before f mem)
        · obtain ⟨u, more, ahead⟩ := List.exists_cons_of_ne_nil (mt List.isEmpty_iff.mpr some)
          cases same
          have here : t.current = u := by simp [State.current, ahead]
          rw [State.errorHere, here]
          exact proper u (steps.advances.rest_suffix.subset (by simp [ahead]))
  | failed e s =>
      have recorded : ((s.record (.syntactic e)).closeToRoot.takeWhile .terminator).Untrailed :=
        (untrailed.1.record untrailed.2).of_errors (errors_takeUpTo .terminator _ _)
      exact absurd trailing (recorded f (syntactic_mem_discard mem))

section
variable {entry : Entry} {maxErrors : Nat} {source : String} {f : SyntaxError}

theorem syntactic_mem_parse (mem : .syntactic f ∈ (parse entry maxErrors source).errors) :
    .syntactic f ∈ (parseStream entry (TokenStream.ofText source.toList)).errors.toList := by
  have sorted := ParseError.mem_sortByStart.mp (List.mem_of_mem_take mem)
  exact (List.mem_append.mp sorted).resolve_left (by simp)

theorem parse_trailing (mem : .syntactic f ∈ (parse entry maxErrors source).errors)
    (trailing : f.issue = .trailing) : f.found.kind ≠ .endOfInput := by
  let start := State.initial entry.rootKind (TokenStream.ofText source.toList)
  have proper : start.Proper := initial_proper entry source
  have ends := Rule.runWhole_ends entry.rule_moves proper
  have ruled : entry.rule ∈ Grammar.rules := List.mem_append_left _ (by cases entry <;> simp)
  have untrailed : (entry.rule.runWhole start).Untrailed :=
    ends.untrailed (Grammar.trailing_notMem_issues ruled) fun f mem => by simp [start, initial] at mem
  have steps := (entry.rule.runWhole_reaches start).steps
  exact finish_trailing untrailed
    (fun t ahead => proper t (steps.advances.rest_suffix.subset ahead)) (syntactic_mem_parse mem) trailing

theorem found_of_mem_parse (mem : .syntactic f ∈ (parse entry maxErrors source).errors) :
    if f.found.kind = .endOfInput then f.found.span = Span.emptyAt source.utf8ByteSize
    else f.found ∈ (TokenStream.ofText source.toList).tokens ∧
      f.found.span.start < f.found.span.stop ∧ f.found.span.stop ≤ source.utf8ByteSize := by
  have concerns : f.found ∈ (TokenStream.ofText source.toList).toList :=
    parseStream_concerns (syntactic_mem_parse mem)
  rw [utf8ByteSize_eq_byteLength]
  obtain own | last := List.mem_append.mp concerns
  · obtain ⟨other, filled, inside⟩ := TokenStream.token_origin own
    rw [if_neg other]
    exact ⟨own, filled, inside⟩
  · rw [List.mem_singleton.mp last]
    rfl

theorem classified_iff (mem : .syntactic f ∈ (parse entry maxErrors source).errors) :
    (ParseError.syntactic f).Classified source ↔ ¬f.TooDeepAtEnd := by
  have found := found_of_mem_parse mem
  have notTrailing := parse_trailing mem
  by_cases atEnd : f.found.kind = .endOfInput
  · rw [if_pos atEnd] at found
    have kind : f.kind = .unexpectedEnd ↔ f.issue ≠ .tooDeep := by
      unfold SyntaxError.kind
      cases issue : f.issue with
      | expected | misplacedImport => simp [atEnd]
      | trailing => exact absurd atEnd (notTrailing issue)
      | tooDeep => simp
    simp only [ParseError.Classified, ParseError.kind, ParseError.span, found, kind,
      SyntaxError.TooDeepAtEnd, atEnd]
    tauto
  · rw [if_neg atEnd] at found
    obtain ⟨own, filled, inside⟩ := found
    have kind : f.kind = .syntactic := by
      unfold SyntaxError.kind
      split <;> simp [atEnd]
    have elsewhere : f.found.span ≠ Span.emptyAt source.utf8ByteSize := by
      intro same
      rw [same] at filled
      exact absurd filled (Nat.lt_irrefl _)
    simp only [ParseError.Classified, ParseError.kind, ParseError.span, kind, elsewhere,
      SyntaxError.TooDeepAtEnd, atEnd]
    simp only [reduceCtorEq, ne_eq, not_false_eq_true, true_and, iff_self, and_false, forall_const,
      iff_true]
    exact ⟨f.found, own, rfl, filled⟩

end

/-- Whether the errors of a parse are classified by the end of the input: they are exactly where
the nesting limit is not met at the very end. -/
theorem parse_classified_iff (entry : Entry) (maxErrors : Nat) (source : String) :
    (∀ e ∈ (parse entry maxErrors source).errors, e.isLexical = false → e.Classified source) ↔
      ∀ f, .syntactic f ∈ (parse entry maxErrors source).errors → ¬f.TooDeepAtEnd := by
  constructor
  · intro classified f mem
    exact (classified_iff mem).mp (classified _ mem rfl)
  · intro shallow e mem syntactic
    cases e with
    | lexical => cases syntactic
    | syntactic f => exact (classified_iff mem).mpr (shallow f mem)

def deepPointers : String := String.ofList (List.replicate (nestingLimit - 1) '^')

/-- The limit is met at the end of the input, and the error there has the plain kind. -/
theorem deepPointers_misclassified :
    ¬∀ e ∈ (parse .type defaultMaxErrors deepPointers).errors,
      e.isLexical = false → e.Classified deepPointers := by
  have letters : deepPointers.toList = List.replicate (nestingLimit - 1) '^' := String.toList_ofList
  have errors : (parse .type defaultMaxErrors deepPointers).errors.map
      (fun e => (e.kind, e.span, e.isLexical)) = [(.syntactic, ⟨255, 255⟩, false)] := by
    unfold parse
    rw [letters]
    decide +kernel
  obtain ⟨e, single, same⟩ := List.map_eq_singleton_iff.mp errors
  simp only [Prod.mk.injEq] at same
  obtain ⟨kind, span, syntactic⟩ := same
  have atEnd : e.span = Span.emptyAt deepPointers.utf8ByteSize := by
    rw [span, utf8ByteSize_eq_byteLength, letters]
    decide +kernel
  intro classified
  have ended := (classified e (by simp [single]) syntactic).1.mpr atEnd
  rw [kind] at ended
  cases ended

end UmkaSyntax
