import UmkaSyntax.Proofs.Grammar.Form

/-!
What can be read off a form without a tree: a shortest sentence, the tokens that sentences begin
with, and what may follow. Then the conditions under which a tree is one of the grammar, and under
which it is the one that a parse finds.
-/

namespace UmkaSyntax
open UmkaSyntax.Part

/-! ## Shortest sentences -/

namespace Symbol

def sample (label : Option FieldName) : Symbol → Part
  | token kind => .token label (Token.bare kind ⟨0, 0⟩ "")
  | keyword k => .keyword label (Token.bare .name ⟨0, 0⟩ k.spelling)
  | builtin family => .token label (Token.bare .name ⟨0, 0⟩ (family.names.headD ""))
  | literal kind => .literal label kind
      (Token.bare (if kind = .charLiteral then .character true else .string true) ⟨0, 0⟩ "")
  | node kind => .node label kind true []
  | raw => .token label (Token.bare .unknown ⟨0, 0⟩ "")

def inhabited : Symbol → Bool
  | literal kind => kind.splits (if kind = .charLiteral then .character true else .string true)
  | _ => true

theorem sample_fits {label : Option FieldName} {symbol : Symbol}
    (inhabited : symbol.inhabited = true) : symbol.Fits (symbol.sample label) := by
  cases symbol with
  | token kind => rfl
  | keyword k => exact ⟨rfl, by cases k <;> decide⟩
  | builtin family => exact ⟨rfl, by cases family <;> decide⟩
  | literal kind => exact ⟨rfl, inhabited⟩
  | node kind => exact ⟨rfl, rfl⟩
  | raw => exact ⟨rfl, by simp [Token.bare]⟩

theorem label_sample (label : Option FieldName) (symbol : Symbol) :
    (symbol.sample label).label = label := by
  cases symbol <;> rfl

end Symbol

namespace Form

def tolerates (k : TokenKind) : Form → Bool
  | nothing | empty | one _ _ => true
  | run kinds => !kinds.contains k
  | ending => k.isClosing
  | seq first second => first.tolerates k && second.tolerates k
  | alt left right => left.tolerates k && right.tolerates k
  | many item => item.tolerates k
  | list ends item before after =>
      ends.all (· k) && item.tolerates k && before.tolerates k && after.tolerates k
  | attempt form | whenBroken form => form.tolerates k

/-- Parts with tokens do not care what comes after them, and the others let it through. -/
theorem of_firstKind {holds : TokenKind → Prop} {parts : List Part} {k next : TokenKind}
    (front : holds (firstKind parts next)) (swap : holds next → holds k) :
    holds (firstKind parts k) := by
  by_cases some : tokensOf parts = []
  · simp only [firstKind, some] at front ⊢
    exact swap front
  · rwa [firstKind_of_ne_nil some k next]

theorem Sentence.tolerates {broken : Prop} {form : Form} {parts : List Part} {k next : TokenKind}
    (sentence : form.Sentence broken parts next) (tolerates : form.tolerates k = true) :
    form.Sentence broken parts k := by
  induction form generalizing parts next with
  | nothing => exact sentence
  | empty => exact sentence
  | one label symbols => exact sentence
  | run kinds => exact ⟨sentence.1, by simpa [Form.tolerates] using tolerates⟩
  | ending =>
      have closing : k.isClosing = true := tolerates
      refine ⟨sentence.1, ?_, fun _ => closing⟩
      revert closing
      cases k <;> simp [TokenKind.isClosing, TokenKind.isTerminator]
  | seq first second ih₁ ih₂ =>
      obtain ⟨left, right, rfl, hl, hr⟩ := sentence
      simp only [Form.tolerates, Bool.and_eq_true] at tolerates
      exact ⟨left, right, rfl, of_firstKind hl (ih₁ · tolerates.1), ih₂ hr tolerates.2⟩
  | alt left right ih₁ ih₂ =>
      simp only [Form.tolerates, Bool.and_eq_true] at tolerates
      exact sentence.imp (ih₁ · tolerates.1) (ih₂ · tolerates.2)
  | many item ih =>
      change (item.Sentence broken).Many parts k
      induction sentence with
      | nil next => exact .nil k
      | cons hf _ rest => exact .cons (of_firstKind hf (ih · tolerates)) rest
  | list ends item before after ih₁ ih₂ ih₃ =>
      simp only [Form.tolerates, Bool.and_eq_true] at tolerates
      obtain ⟨⟨⟨stops, t₁⟩, t₂⟩, t₃⟩ := tolerates
      change Phrases.Listed ends _ _ _ parts k
      induction sentence with
      | stop test some _ =>
          subst some
          exact .stop test rfl stops
      | last hp hg => exact .last (of_firstKind hp (ih₁ · t₁)) (ih₂ hg t₂)
      | more hc hp hg hs _ more => exact .more hc hp hg (of_firstKind hs (ih₃ · t₃)) more
  | attempt form ih => exact sentence.imp (ih · tolerates) id
  | whenBroken form ih => exact ⟨sentence.1, ih sentence.2 tolerates⟩

/-- A sentence that may stand in front of a closing brace. -/
def sample : Form → List Part
  | one label (symbol :: _) => [symbol.sample label]
  | seq first second => first.sample ++ second.sample
  | alt _ right => right.sample
  | list _ item before _ => item.sample ++ before.sample
  | attempt form => form.sample
  | _ => []

def opening (form : Form) : TokenKind := firstKind form.sample (.punct .rightBrace)

def grounded : Form → Bool
  | nothing | whenBroken _ => false
  | empty | ending | many _ => true
  | one _ symbols => symbols.head?.any Symbol.inhabited
  | run kinds => !kinds.contains (.punct .rightBrace)
  | seq first second => first.grounded && second.grounded && first.tolerates second.opening
  | alt _ right => right.grounded
  | list _ item before _ => item.grounded && before.grounded && item.tolerates before.opening
  | attempt form => form.grounded

theorem sentence_sample (broken : Prop) {form : Form} (grounded : form.grounded = true) :
    form.Sentence broken form.sample (.punct .rightBrace) := by
  induction form with
  | nothing | whenBroken => cases grounded
  | empty => rfl
  | one label symbols =>
      cases symbols with
      | nil => cases grounded
      | cons symbol more =>
          exact ⟨_, rfl, symbol.label_sample label, symbol, by simp, Symbol.sample_fits grounded⟩
  | run kinds => exact ⟨by simp [sample], by simpa [Form.grounded] using grounded⟩
  | ending => exact ⟨by simp [sample], rfl, fun _ => rfl⟩
  | seq first second ih₁ ih₂ =>
      simp only [Form.grounded, Bool.and_eq_true] at grounded
      exact ⟨_, _, rfl, (ih₁ grounded.1.1).tolerates grounded.2, ih₂ grounded.1.2⟩
  | alt left right ih₁ ih₂ => exact .inr (ih₂ grounded)
  | many item ih => exact .nil _
  | list ends item before after ih₁ ih₂ ih₃ =>
      simp only [Form.grounded, Bool.and_eq_true] at grounded
      exact .last ((ih₁ grounded.1.1).tolerates grounded.2) (ih₂ grounded.1.2)
  | attempt form ih => exact .inl (ih grounded)

def joins (first second : Form) : Bool := second.grounded && first.tolerates second.opening

end Form

/-! ## Beginnings of sentences -/

namespace Phrases

variable {phrases more : Phrases} {parts : List Part}

theorem Unfinished.of_phrase {next : TokenKind} (phrase : phrases parts next) :
    phrases.Unfinished parts :=
  ⟨[], next, .inl (by simpa using phrase)⟩

theorem Unfinished.mono (unfinished : phrases.Unfinished parts)
    (weaker : ∀ parts next, phrases parts next → ∃ next, more parts next) :
    more.Unfinished parts := by
  obtain ⟨behind, next, whole | ⟨before, last, rfl, whole⟩⟩ := unfinished
  · obtain ⟨next, whole⟩ := weaker _ _ whole
    exact ⟨behind, next, .inl whole⟩
  · obtain ⟨next, whole⟩ := weaker _ _ whole
    exact ⟨behind, next, .inr ⟨before, last, rfl, whole⟩⟩

theorem Unfinished.prepend (unfinished : phrases.Unfinished parts) (filled : tokensOf parts ≠ [])
    {left : List Part} {k : TokenKind} (join : ∀ right next, phrases right next →
      firstKind right next = firstKind parts k → ∃ next, more (left ++ right) next) :
    more.Unfinished (left ++ parts) := by
  obtain ⟨behind, next, whole | ⟨before, last, rfl, whole⟩⟩ := unfinished
  · have first : firstKind (parts ++ behind) next = firstKind parts k := by
      rw [firstKind_append]
      exact firstKind_of_ne_nil filled _ _
    obtain ⟨next, joined⟩ := join _ _ whole first
    exact ⟨behind, next, .inl (by simpa using joined)⟩
  · have first : firstKind (before ++ last.mended :: behind) next = firstKind (before ++ [last]) k := by
      have same : tokensOf (before ++ last.mended :: behind) =
          tokensOf (before ++ [last]) ++ tokensOf behind := by
        simp [tokensOf]
      obtain ⟨t, rest, eq⟩ := List.exists_cons_of_ne_nil filled
      rw [firstKind, same, eq, firstKind, eq]
      rfl
    obtain ⟨next, joined⟩ := join _ _ whole first
    exact ⟨behind, next, .inr ⟨left ++ before, last, by simp, by simpa using joined⟩⟩

end Phrases

namespace Form

variable {broken : Prop} {form first second : Form} {parts left right : List Part}

theorem Unfinished.of_grounded (grounded : form.grounded = true) :
    (form.Sentence broken).Unfinished [] :=
  ⟨form.sample, _, .inl (sentence_sample broken grounded)⟩

theorem Unfinished.seq_left (joins : first.joins second = true)
    (unfinished : (first.Sentence broken).Unfinished parts) :
    ((seq first second).Sentence broken).Unfinished parts := by
  simp only [Form.joins, Bool.and_eq_true] at joins
  obtain ⟨behind, next, whole | ⟨before, last, rfl, whole⟩⟩ := unfinished
  · refine ⟨behind ++ second.sample, _, .inl ⟨_, _, (List.append_assoc _ _ _).symm,
      whole.tolerates joins.2, sentence_sample broken joins.1⟩⟩
  · refine ⟨behind ++ second.sample, _, .inr ⟨before, last, rfl, _, _, by simp,
      whole.tolerates joins.2, sentence_sample broken joins.1⟩⟩

end Form

/-! ## First tokens -/

namespace Form

def vanishes (k : TokenKind) : Form → Bool
  | nothing | one _ _ => false
  | empty | many _ | attempt _ => true
  | run kinds => !kinds.contains k
  | ending => k.isClosing
  | seq first second => first.vanishes k && second.vanishes k
  | alt left right => left.vanishes k || right.vanishes k
  | list ends item before _ => ends.any (· k) || item.vanishes k && before.vanishes k
  | whenBroken form => form.vanishes k

theorem Sentence.vanishes {broken : Prop} {form : Form} {parts : List Part} {next : TokenKind}
    (sentence : form.Sentence broken parts next) (none : parts = []) : form.vanishes next = true := by
  induction form generalizing parts next with
  | nothing => exact sentence.elim
  | empty | many | attempt => rfl
  | run kinds => simpa [Form.vanishes] using sentence.2
  | ending => exact sentence.2.2 none
  | one =>
      obtain ⟨part, rfl, -⟩ := sentence
      cases none
  | seq first second ih₁ ih₂ =>
      obtain ⟨left, right, rfl, hl, hr⟩ := sentence
      obtain ⟨rfl, rfl⟩ := List.append_eq_nil_iff.mp none
      simp only [Form.vanishes, Bool.and_eq_true]
      exact ⟨ih₁ hl rfl, ih₂ hr rfl⟩
  | alt left right ih₁ ih₂ =>
      simp only [Form.vanishes, Bool.or_eq_true]
      exact sentence.imp (ih₁ · none) (ih₂ · none)
  | list ends item before after ih₁ ih₂ ih₃ =>
      simp only [Form.vanishes, Bool.or_eq_true, Bool.and_eq_true]
      cases sentence with
      | stop test some holds => exact .inl (by simp [some, holds])
      | last hp hg =>
          obtain ⟨rfl, rfl⟩ := List.append_eq_nil_iff.mp none
          exact .inr ⟨ih₁ hp rfl, ih₂ hg rfl⟩
      | more => simp at none
  | whenBroken form ih => exact ih sentence.2 none

def nullable : Form → Bool
  | nothing | one _ _ => false
  | empty | run _ | ending | many _ | attempt _ => true
  | seq first second => first.nullable && second.nullable
  | alt left right => left.nullable || right.nullable
  | list ends item before _ => ends.isSome || item.nullable && before.nullable
  | whenBroken form => form.nullable

theorem nullable_of_vanishes {form : Form} {k : TokenKind} (vanishes : form.vanishes k = true) :
    form.nullable = true := by
  induction form with
  | nothing | one => cases vanishes
  | empty | run | ending | many | attempt => rfl
  | seq first second ih₁ ih₂ =>
      simp only [Form.vanishes, Bool.and_eq_true] at vanishes
      simp [nullable, ih₁ vanishes.1, ih₂ vanishes.2]
  | alt left right ih₁ ih₂ =>
      simp only [Form.vanishes, Bool.or_eq_true] at vanishes
      simp only [nullable, Bool.or_eq_true]
      exact vanishes.imp ih₁ ih₂
  | list ends item before after ih₁ ih₂ ih₃ =>
      simp only [Form.vanishes, Bool.or_eq_true, Bool.and_eq_true] at vanishes
      simp only [nullable, Bool.or_eq_true, Bool.and_eq_true]
      refine vanishes.imp (fun some => ?_) fun h => ⟨ih₁ h.1, ih₂ h.2⟩
      cases ends with
      | none => cases some
      | some test => rfl
  | whenBroken form ih => exact ih vanishes

theorem Sentence.ne_nil {broken : Prop} {form : Form} {parts : List Part} {next : TokenKind}
    (sentence : form.Sentence broken parts next) (solid : form.nullable = false) : parts ≠ [] := by
  intro none
  simp [nullable_of_vanishes (sentence.vanishes none)] at solid

end Form

def anyKind : List TokenKind :=
  TokenKind.plain ++ [.string true, .string false, .character true, .character false]

theorem mem_anyKind (kind : TokenKind) : kind ∈ anyKind := by
  cases kind with
  | string closed | character closed => cases closed <;> decide
  | punct p => cases p <;> decide
  | _ => decide

def NodeKind.first : NodeKind → List TokenKind
  | ptrType => [.punct .caret, .name]
  | arrayType | dynArrayType => [.punct .leftBracket]
  | block | arrayLiteral | mapLiteral => [.punct .leftBrace]
  | receiver | arguments | parameterList | signature => [.punct .leftParen]
  | decNumber => [.decNumber]
  | hexNumber => [.hexNumber]
  | realNumber => [.realNumber]
  | importItem => [.name, .string true, .string false]
  | exprList | mapEntry =>
      [.string true, .string false, .character true, .character false, .decNumber, .hexNumber,
        .realNumber, .name, .punct .leftBrace]
  | error => anyKind
  | _ => [.name]

def Symbol.first : Symbol → List TokenKind
  | token kind => [kind]
  | keyword _ | builtin _ => [.name]
  | literal kind =>
      [.string true, .string false, .character true, .character false].filter kind.splits
  | node kind => kind.first
  | raw => anyKind

def Form.first : Form → List TokenKind
  | nothing | empty | whenBroken _ => []
  | one _ symbols => symbols.flatMap Symbol.first
  | run kinds => kinds
  | ending => [.semicolon, .newline]
  | seq first second => first.first ++ if first.nullable then second.first else []
  | alt left right => left.first ++ right.first
  | many item | attempt item => item.first
  | list _ item before _ =>
      item.first ++ if item.nullable then before.first ++ [.punct .comma] else []

theorem production_first (kind : NodeKind) :
    (production kind).nullable = false ∧ (production kind).first ⊆ kind.first := by
  cases kind <;> decide

def Begun (_ : Nat) (kind : NodeKind) (_ : Bool) (parts : List Part) (_ : TokenKind) : Prop :=
  tokensOf parts ≠ [] ∧ ∀ next, firstKind parts next ∈ kind.first

theorem Symbol.Fits.first {symbol : Symbol} {part : Part} {depth : Nat} {next : TokenKind}
    (fits : symbol.Fits part) (begun : Licensed Begun depth part next) :
    part.tokens ≠ [] ∧ ∀ more next, firstKind (part :: more) next ∈ symbol.first := by
  cases part with
  | token label t =>
      refine ⟨by simp [tokens], fun more next => ?_⟩
      change t.kind ∈ symbol.first
      cases symbol with
      | token kind => exact List.mem_singleton.mpr fits
      | builtin family => simpa [Symbol.first] using fits.1
      | raw => exact mem_anyKind _
      | keyword | literal | node => exact fits.elim
  | keyword label t =>
      refine ⟨by simp [tokens], fun more next => ?_⟩
      change t.kind ∈ symbol.first
      cases symbol with
      | keyword k => simpa [Symbol.first] using fits.1
      | token | builtin | raw | literal | node => exact fits.elim
  | literal label kind t =>
      refine ⟨by simp [tokens], fun more next => ?_⟩
      change t.kind ∈ symbol.first
      cases symbol with
      | literal kind' =>
          obtain ⟨rfl, splits⟩ := fits
          refine List.mem_filter.mpr ⟨?_, splits⟩
          revert splits
          rcases t.kind with _ | _ | _ | (_ | _) | (_ | _) <;> simp [NodeKind.splits]
      | raw => exact mem_anyKind _
      | token | builtin | keyword | node => exact fits.elim
  | node label kind whole parts =>
      cases symbol with
      | node kind' =>
          obtain ⟨rfl, -⟩ := fits
          obtain ⟨⟨some, first⟩, -⟩ := begun
          refine ⟨by simpa [tokens] using some, fun more next => ?_⟩
          obtain ⟨t, rest, eq⟩ := List.exists_cons_of_ne_nil some
          have own := first next
          simp only [firstKind, tokensOf, tokens, eq] at own ⊢
          exact own
      | token | builtin | keyword | literal | raw => exact fits.elim

/-- The parts have no tokens because there are none, or begin with one of the kinds. -/
def OpensWith (first : List TokenKind) (nullable : Bool) (parts : List Part) (next : TokenKind) :
    Prop :=
  parts = [] ∧ nullable = true ∨ tokensOf parts ≠ [] ∧ firstKind parts next ∈ first

theorem OpensWith.mono {first second : List TokenKind} {a b : Bool} {parts : List Part}
    {next : TokenKind} (opens : OpensWith first a parts next) (sub : first ⊆ second)
    (nullable : a = true → b = true) : OpensWith second b parts next :=
  opens.imp (fun h => ⟨h.1, nullable h.2⟩) fun h => ⟨h.1, sub h.2⟩

theorem OpensWith.append {first second : List TokenKind} {a b : Bool} {left right : List Part}
    {next : TokenKind} (hl : OpensWith first a left (firstKind right next))
    (hr : OpensWith second b right next) :
    OpensWith (first ++ if a then second else []) (a && b) (left ++ right) next := by
  obtain ⟨rfl, rfl⟩ | ⟨some, mem⟩ := hl
  · exact hr.mono (by simp) (by simp)
  · refine .inr ⟨by simp [some], ?_⟩
    rw [firstKind_append]
    exact List.mem_append_left _ mem

theorem Form.Sentence.first {form : Form} {depth : Nat} {parts : List Part} {next : TokenKind}
    (sentence : form.Sentence False parts next) (begun : LicensedAll Begun depth parts next) :
    OpensWith form.first form.nullable parts next := by
  induction form generalizing parts next with
  | nothing => exact sentence.elim
  | empty => exact .inl ⟨sentence, rfl⟩
  | one label symbols =>
      obtain ⟨part, rfl, -, symbol, mem, fits⟩ := sentence
      obtain ⟨some, first⟩ := fits.first begun.1
      exact .inr ⟨by simpa [tokensOf] using some, List.mem_flatMap.mpr ⟨symbol, mem, first _ _⟩⟩
  | run kinds =>
      cases parts with
      | nil => exact .inl ⟨rfl, rfl⟩
      | cons part more =>
          obtain ⟨t, rfl, mem⟩ := sentence.1 part (by simp)
          exact .inr ⟨by simp [tokensOf, tokens], mem⟩
  | ending =>
      cases parts with
      | nil => exact .inl ⟨rfl, rfl⟩
      | cons part more =>
          obtain ⟨t, rfl, terminates⟩ := sentence.1 part (by simp)
          refine .inr ⟨by simp [tokensOf, tokens], ?_⟩
          change t.kind ∈ [TokenKind.semicolon, .newline]
          simpa [TokenKind.isTerminator] using terminates
  | seq first second ih₁ ih₂ =>
      obtain ⟨left, right, rfl, hl, hr⟩ := sentence
      obtain ⟨bl, br⟩ := licensedAll_append.mp begun
      exact (ih₁ hl bl).append (ih₂ hr br)
  | alt left right ih₁ ih₂ =>
      obtain hl | hr := sentence
      · exact (ih₁ hl begun).mono (by simp [Form.first]) (by simp +contextual [nullable])
      · exact (ih₂ hr begun).mono (by simp [Form.first]) (by simp +contextual [nullable])
  | many item ih =>
      change OpensWith item.first true parts next
      induction sentence with
      | nil next => exact .inl ⟨rfl, rfl⟩
      | cons hf _ rest =>
          obtain ⟨bl, br⟩ := licensedAll_append.mp begun
          refine ((ih hf bl).append (rest br)).mono ?_ (fun _ => rfl)
          split <;> simp
  | list ends item before after ih₁ ih₂ ih₃ =>
      cases sentence with
      | stop test some => exact .inl ⟨rfl, by simp [nullable, some]⟩
      | last hp hg =>
          obtain ⟨bl, br⟩ := licensedAll_append.mp begun
          refine ((ih₁ hp bl).append (ih₂ hg br)).mono ?_ (by simp +contextual [nullable])
          simp only [Form.first]
          split <;> simp
      -- The comma stands behind the item and the gap, so either of them may be missing.
      | @more parts gap space rest comma _ hc hp hg hs hr =>
          obtain ⟨bl, br⟩ := licensedAll_append.mp begun
          obtain ⟨bg, -⟩ := licensedAll_append.mp br
          have behind : ∀ next, firstKind (.token none comma :: (space ++ rest)) next =
              .punct .comma := fun next => hc
          rw [firstKind_append, behind] at bl
          rw [behind] at bg
          have comma : OpensWith [.punct .comma] false (.token none comma :: (space ++ rest)) next :=
            .inr ⟨by simp [tokensOf, tokens], by simp [behind]⟩
          have gap := (ih₂ hg bg : OpensWith before.first before.nullable gap _)
          rw [← behind next] at gap
          have item := (ih₁ hp bl)
          rw [← behind next, ← firstKind_append] at item
          refine (item.append (gap.append comma)).mono ?_ (by simp)
          simp only [Form.first]
          split
          · split <;> simp
          · simp
  | attempt form ih =>
      obtain whole | ⟨never, -⟩ := sentence
      · exact (ih whole begun).mono (by simp [Form.first]) (fun _ => rfl)
      · exact never.elim
  | whenBroken form ih => exact sentence.1.elim

/-! ## Trees of the grammar -/

/-- The parts of a node form a sentence of its production. In a broken tree they may be only the
beginning of one. -/
def Shape (broken : Prop) (_ : Nat) (kind : NodeKind) (whole : Bool) (parts : List Part)
    (next : TokenKind) : Prop :=
  parts ≠ [] ∧ (whole = true ∧ (production kind).Sentence broken parts next ∨
    broken ∧ whole = false ∧ ((production kind).Sentence broken).Unfinished parts)

mutual

theorem Part.Licensed.begun {depth : Nat} : ∀ {part : Part} {next : TokenKind},
    Licensed (Shape False) depth part next → Licensed Begun depth part next
  | .node _ kind _ parts, next, ⟨⟨_, shape⟩, inner⟩ => by
      have begun := Part.LicensedAll.begun inner
      refine ⟨?_, begun⟩
      obtain ⟨-, sentence⟩ | ⟨never, -⟩ := shape
      · obtain ⟨-, nullable⟩ | ⟨some, mem⟩ := sentence.first begun
        · simp [(production_first kind).1] at nullable
        · refine ⟨some, fun other => ?_⟩
          rw [firstKind_of_ne_nil some other next]
          exact (production_first kind).2 mem
      · exact never.elim
  | .token _ _, _, _ | .keyword _ _, _, _ | .literal _ _ _, _, _ => trivial

theorem Part.LicensedAll.begun {depth : Nat} : ∀ {parts : List Part} {next : TokenKind},
    LicensedAll (Shape False) depth parts next → LicensedAll Begun depth parts next
  | [], _, _ => trivial
  | _ :: _, _, ⟨first, more⟩ => ⟨Part.Licensed.begun first, Part.LicensedAll.begun more⟩

end

/-! ### Where words and depth matter -/

def Part.plainName? : Part → Option Token
  | .node _ .qualifiedName _ [.token _ t] => some t
  | _ => none

def Keyword.opener? : Keyword → Option Punct
  | weak => some .caret
  | enum | struct | interface => some .leftBrace
  | map => some .leftBracket
  | fn => some .leftParen
  | imports | const | var | type => none

/-- The child of a node of the kind `host`, with `depth` nodes around it, is read as what it is. -/
structure Careful (host : NodeKind) (depth : Nat) (part : Part) (next : TokenKind) : Prop where
  /-- No statement or short declaration begins like another declaration. -/
  opening : ∀ label kind whole parts, part = .node label kind whole parts →
    kind ∈ [NodeKind.callStmt, .declAssignment, .shortVarDecl] →
    ∀ t ∈ (tokensOf parts).head?, ∀ k ∈ Keyword.declarations, Keyword.ofSpelling? t.text ≠ some k
  /-- No name of a type becomes another type by the token after it. -/
  typeName : host ≠ .primary → ∀ t ∈ part.plainName?, ∀ k ∈ Keyword.ofSpelling? t.text,
    ∀ p ∈ k.opener?, next ≠ .punct p
  /-- No name in an expression becomes a call of a built-in function. -/
  builtin : host = .primary → ∀ t ∈ part.plainName?, BuiltinFamily.ofName? t.text ≠ none →
    next ≠ .punct .leftParen
  /-- Types, expressions and blocks do not nest too deep. The name in an expression is no type,
  and what a statement calls no expression. -/
  shallow : host ≠ .primary → host ≠ .callStmt →
    ∀ category : Category, ∀ symbol ∈ category.symbols, symbol.Fits part → depth < nestingLimit

def CarefulAll (host : NodeKind) (depth : Nat) (parts : List Part) (next : TokenKind) : Prop :=
  ∀ before part after, parts = before ++ part :: after →
    Careful host depth part (firstKind after next)

def Strict (depth : Nat) (kind : NodeKind) (whole : Bool) (parts : List Part) (next : TokenKind) :
    Prop :=
  Shape False depth kind whole parts next ∧ CarefulAll kind (depth + 1) parts next

/-- Parts of a derivation in a node of the kind `host`, with `depth` nodes around them. -/
structure Valid (host : NodeKind) (depth : Nat) (parts : List Part) (next : TokenKind) : Prop where
  strict : LicensedAll Strict depth parts next
  careful : CarefulAll host depth parts next

namespace Valid

variable {host : NodeKind} {depth : Nat} {parts left right : List Part} {next : TokenKind}

theorem of_append_left (valid : Valid host depth (left ++ right) next) :
    Valid host depth left (firstKind right next) := by
  refine ⟨(licensedAll_append.mp valid.strict).1, fun before part after eq => ?_⟩
  subst eq
  rw [← firstKind_append]
  exact valid.careful before part (after ++ right) (by simp)

theorem of_append_right (valid : Valid host depth (left ++ right) next) : Valid host depth right next := by
  refine ⟨(licensedAll_append.mp valid.strict).2, fun before part after eq => ?_⟩
  subst eq
  exact valid.careful (left ++ before) part after (by simp)

theorem head {part : Part} (valid : Valid host depth (part :: parts) next) :
    Valid host depth [part] (firstKind parts next) :=
  of_append_left (show Valid host depth ([part] ++ parts) next from valid)

theorem tail {part : Part} (valid : Valid host depth (part :: parts) next) :
    Valid host depth parts next :=
  of_append_right (show Valid host depth ([part] ++ parts) next from valid)

theorem begun (valid : Valid host depth parts next) : LicensedAll Begun depth parts next :=
  (valid.strict.imp fun _ _ _ _ _ strict => strict.1).begun

theorem opens (valid : Valid host depth parts next) {form : Form}
    (sentence : form.Sentence False parts next) :
    OpensWith form.first form.nullable parts next :=
  sentence.first valid.begun

theorem inside {label : Option FieldName} {kind : NodeKind} {whole : Bool}
    (valid : Valid host depth [.node label kind whole parts] next) :
    Valid kind (depth + 1) parts next ∧ (production kind).Sentence False parts next ∧
      whole = true := by
  obtain ⟨⟨⟨⟨-, shape⟩, careful⟩, inner⟩, -⟩ := valid.strict
  obtain ⟨rfl, sentence⟩ | ⟨never, -⟩ := shape
  · exact ⟨⟨inner, careful⟩, sentence, rfl⟩
  · exact never.elim

end Valid

end UmkaSyntax
