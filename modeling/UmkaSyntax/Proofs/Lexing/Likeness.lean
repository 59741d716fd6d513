import Mathlib.Data.List.Forall2
import UmkaSyntax.Proofs.Lexing.Origin
import UmkaSyntax.Proofs.Tree.Erasure

namespace UmkaSyntax

/-- The tokens agree in kind; names have the same meaning to the grammar, and literals the same
letters. -/
def Token.Alike (t u : Token) : Prop :=
  t.kind = u.kind ∧
    (t.kind = .name → Keyword.ofSpelling? t.text = Keyword.ofSpelling? u.text ∧
      BuiltinFamily.ofName? t.text = BuiltinFamily.ofName? u.text) ∧
    (t.kind.isLiteral = true → t.text = u.text)

instance (t u : Token) : Decidable (t.Alike u) := inferInstanceAs (Decidable (_ ∧ _ ∧ _))

def TokenKind.fixedText? : TokenKind → Option String
  | punct p => some p.spelling
  | semicolon => some ";"
  | newline => some "\n"
  | _ => none

namespace Lexeme

theorem number_free (c : Char) (cs : List Char) :
    (number c cs).1 ∈ [TokenKind.decNumber, .hexNumber, .realNumber] := by
  unfold number
  dsimp only
  repeat' split
  all_goals simp

theorem punctuation_spelled {c : Char} {cs : List Char} {p : Punct} {n : Nat}
    (found : punctuation c cs.head? = some (p, n)) :
    p.spelling = String.ofList (c :: cs.take n) := by
  -- the second letter of an operator is the next one of the source
  have second : ∀ d, cs.head? = some d → cs.take 1 = [d] := by
    intro d head
    obtain ⟨more, rfl⟩ := List.head?_eq_some_iff.mp head
    rfl
  unfold punctuation at found
  split at found
  all_goals
    first
      | (rename_i head; cases found; rw [second _ head]; rfl)
      | (cases found; rw [List.take_zero]; rfl)
      | cases found

theorem read_letters {c : Char} {cs : List Char} {kind : TokenKind}
    (token : (read c cs).1 = .token kind) :
    kind ∈ [TokenKind.decNumber, .hexNumber, .realNumber, .name, .unknown] ∨
      kind.isLiteral = true ∨ kind.fixedText? = some (String.ofList (c :: cs.take (read c cs).2)) := by
  revert token
  fun_cases read c cs with
  | case1 | case6 | case7 =>
      intro token
      cases token
  | case2 space digit kind' n what =>
      intro token
      have free := number_free c cs
      simp only [Lexeme.token.injEq] at token
      rw [what, token] at free
      refine .inl ?_
      simp only [List.mem_cons, List.not_mem_nil, or_false] at free ⊢
      tauto
  | case3 =>
      intro token
      cases token
      exact .inl (by simp)
  | case4 | case5 =>
      intro token
      cases token
      exact .inr (.inl rfl)
  | case8 _ _ _ _ _ _ _ newline =>
      intro token
      cases token
      subst newline
      exact .inr (.inr rfl)
  | case9 _ _ _ _ _ _ _ _ semicolon =>
      intro token
      cases token
      subst semicolon
      exact .inr (.inr rfl)
  | case10 _ _ _ _ _ _ _ _ _ p n found =>
      intro token
      cases token
      exact .inr (.inr (congrArg some (punctuation_spelled found)))
  | case11 =>
      intro token
      cases token
      exact .inl (by simp)

end Lexeme

theorem Tile.exists_letters {α : Type} {read : Reader α} {offset skip : Nat} {cs : List Char}
    {tile : Tile α} (mem : tile ∈ tilesAfter read offset skip cs) :
    ∃ c more, tile.what = (read c more).1 ∧ tile.text = c :: more.take (read c more).2 ∧
      tile.span.stop = tile.span.start + byteLength tile.text := by
  induction cs generalizing offset skip with
  | nil => simp [tilesAfter] at mem
  | cons c cs ih =>
      cases skip with
      | succ skip => exact ih mem
      | zero =>
          rcases List.mem_cons.mp mem with rfl | mem
          · exact ⟨c, cs, rfl, rfl, rfl⟩
          · exact ih mem

namespace TokenStream

theorem attach_eq_map (isFirst : Bool) (last : List Trivia) (spaced : List Spaced) :
    (attach isFirst last spaced).map (fun t => (t.kind, t.span, t.text)) =
      spaced.map fun s => (s.token.kind, s.token.span, s.token.text) := by
  induction spaced generalizing isFirst with
  | nil => rfl
  | cons s more ih => simp [attach, ih]

def tokenTile? (tile : Tile Lexeme) : Option (TokenKind × Span × String) :=
  match tile.what with
  | .token kind => some (kind, tile.span, String.ofList tile.text)
  | .trivia _ _ => none

theorem space_eq_filterMap (gap : List Trivia) (tiles : List (Tile Lexeme)) :
    (space gap tiles).1.map (fun s => (s.token.kind, s.token.span, s.token.text)) =
      tiles.filterMap tokenTile? := by
  induction tiles generalizing gap with
  | nil => rfl
  | cons tile tiles ih =>
      cases what : tile.what with
      | trivia kind closed => simp [space, what, tokenTile?, ih]
      | token kind => simp [space, what, tokenTile?, ih, Token.bare]

theorem tokens_eq_filterMap (cs : List Char) :
    (ofText cs).tokens.map (fun t => (t.kind, t.span, t.text)) =
      (tiles Lexeme.read 0 cs).filterMap tokenTile? := by
  rw [← space_eq_filterMap []]
  exact attach_eq_map true _ _

theorem token_letters {cs : List Char} {t : Token} (mem : t ∈ (ofText cs).tokens) :
    t.span.stop = t.span.start + byteLength t.text.toList ∧
      (t.kind ∈ [TokenKind.decNumber, .hexNumber, .realNumber, .name, .unknown] ∨
        t.kind.isLiteral = true ∨ t.kind.fixedText? = some t.text) := by
  have listed := @List.mem_map_of_mem _ _ _ _ (fun t : Token => (t.kind, t.span, t.text)) mem
  rw [tokens_eq_filterMap] at listed
  obtain ⟨tile, mem, eq⟩ := List.mem_filterMap.mp listed
  obtain ⟨c, more, what, text, size⟩ := Tile.exists_letters mem
  unfold tokenTile? at eq
  split at eq
  · rename_i kind isToken
    simp only [Option.some.injEq, Prod.mk.injEq] at eq
    obtain ⟨rfl, span, letters⟩ := eq
    rw [← span, ← letters, String.toList_ofList]
    refine ⟨size, ?_⟩
    rw [text]
    exact Lexeme.read_letters (what.symm.trans isToken)
  · cases eq

end TokenStream

theorem Token.Alike.erased_eq {cs ds : List Char} {t u : Token} (alike : t.Alike u)
    (left : t ∈ (TokenStream.ofText cs).tokens) (right : u ∈ (TokenStream.ofText ds).tokens) :
    t.erased true = u.erased true := by
  obtain ⟨kind, names, letters⟩ := alike
  have lasting : t.kind.lastingText t.text = u.kind.lastingText u.text := by
    obtain free | literal | fixed := (TokenStream.token_letters left).2
    · rw [← kind]
      simp only [List.mem_cons, List.not_mem_nil, or_false] at free
      obtain same | same | same | same | same := free <;> rw [same] <;>
        simp only [TokenKind.lastingText]
      rw [(names same).1]
    · rw [← kind, letters literal]
    · have fixed' := (TokenStream.token_letters right).2
      rw [← kind] at fixed' ⊢
      obtain free | literal | fixed' := fixed'
      · simp only [List.mem_cons, List.not_mem_nil, or_false] at free
        obtain same | same | same | same | same := free <;> rw [same] at fixed <;> cases fixed
      · rw [letters literal]
      · rw [Option.some.inj (fixed.symm.trans fixed')]
  simp only [Token.erased, if_true]
  rw [lasting, kind]

def Token.lexicalError? (t : Token) : Option LexicalError :=
  (TokenStream.issue? (.token t.kind)).map fun issue => ⟨issue, t.span⟩

theorem TokenStream.errors_filter (cs : List Char) :
    (ofText cs).errors.filter (·.issue != .unterminatedComment) =
      (ofText cs).tokens.filterMap Token.lexicalError? := by
  let ofTriple : TokenKind × Span × String → Option LexicalError := fun x =>
    (issue? (.token x.1)).map fun issue => ⟨issue, x.2.1⟩
  have tokens : (ofText cs).tokens.filterMap Token.lexicalError? =
      ((ofText cs).tokens.map fun t => (t.kind, t.span, t.text)).filterMap ofTriple := by
    rw [List.filterMap_map]
    rfl
  rw [tokens, tokens_eq_filterMap, List.filterMap_filterMap]
  change ((tiles Lexeme.read 0 cs).filterMap error?).filter _ = _
  rw [List.filter_filterMap]
  congr 1
  funext tile
  obtain ⟨what, span, text⟩ := tile
  cases what with
  | trivia kind closed => cases closed <;> rfl
  | token kind =>
      cases kind with
      | string closed | character closed => cases closed <;> rfl
      | _ => rfl

end UmkaSyntax
