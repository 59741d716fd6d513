import UmkaSyntax.Proofs.Lexing.Origin
import UmkaSyntax.Proofs.Parsing.Conservation

namespace UmkaSyntax

/-- The error is about one of the tokens, the last of which is the end of the input. -/
def ParseError.Concerns (stream : TokenStream) : ParseError → Prop
  | .syntactic e => e.found ∈ stream.toList
  | .lexical e => ∃ t ∈ stream.tokens, ∃ flavor, e ∈ (LiteralParts.ofToken flavor t).errors

namespace State

structure Blames (stream : TokenStream) (s : State) : Prop where
  rest : s.rest <:+ stream.tokens
  endOfInput : s.endOfInput = stream.endOfInput
  errors : ∀ e ∈ s.errors.toList, e.Concerns stream

namespace Blames
variable {stream : TokenStream} {s : State}

theorem current_mem (blames : s.Blames stream) : s.current ∈ stream.toList := by
  rw [current, TokenStream.toList, List.mem_append]
  cases ahead : s.rest with
  | nil => exact .inr (by simp [blames.endOfInput])
  | cons t more => exact .inl (blames.rest.mem (by simp [ahead]))

theorem ahead (blames : s.Blames stream) {more : List Token} (later : more <:+ s.rest)
    (b : Builder) : Blames stream { s with rest := more, builder := b } :=
  { blames with rest := later.trans blames.rest }

theorem recordLexical (blames : s.Blames stream) {errors : List LexicalError}
    (concern : ∀ e ∈ errors, (ParseError.lexical e).Concerns stream) :
    (s.recordLexical errors).Blames stream := by
  refine { blames with errors := fun e mem => ?_ }
  simp only [State.recordLexical, Array.toList_appendList, List.mem_append, List.mem_map] at mem
  rcases mem with old | ⟨e, mem, rfl⟩
  · exact blames.errors e old
  · exact concern e mem

theorem salvage_errors {t : Token} {e : LexicalError} (mem : e ∈ (salvage t).2) :
    ∃ flavor, e ∈ (LiteralParts.ofToken flavor t).errors := by
  unfold salvage at mem
  split at mem
  · exact ⟨.plain, mem⟩
  · exact ⟨.plain, mem⟩
  · simp at mem

theorem discard (blames : s.Blames stream) (count : Nat) : (s.discard count).Blames stream := by
  unfold State.discard
  dsimp only
  split
  · exact blames
  · refine (blames.ahead (List.drop_suffix count s.rest) _).recordLexical fun e mem => ?_
    simp only [List.mem_flatMap, List.mem_map] at mem
    obtain ⟨_, ⟨t, ahead, rfl⟩, mem⟩ := mem
    obtain ⟨flavor, mem⟩ := salvage_errors mem
    exact ⟨t, blames.rest.mem (List.mem_of_mem_take ahead), flavor, mem⟩

theorem takeAs (blames : s.Blames stream) (f : Token → Token) : (s.takeAs f).Blames stream := by
  unfold State.takeAs
  split
  · exact blames
  · rename_i t more ahead
    exact blames.ahead (ahead ▸ List.suffix_cons t more) _

theorem takeLiteral (blames : s.Blames stream) (kind : NodeKind) (flavor : Flavor) :
    (s.takeLiteral kind flavor).Blames stream := by
  unfold State.takeLiteral
  split
  · exact blames
  · rename_i t more ahead
    refine (blames.ahead (ahead ▸ List.suffix_cons t more) _).recordLexical fun e mem => ?_
    exact ⟨t, blames.rest.mem (by simp [ahead]), flavor, mem⟩

theorem step (blames : s.Blames stream) {t : State} (step : Step s t) : t.Blames stream := by
  cases step with
  | take => exact blames.takeAs id
  | takeKeyword => exact blames.takeAs asKeyword
  | takeLiteral kind flavor => exact blames.takeLiteral kind flavor
  | discard count => exact blames.discard count
  | record issue =>
      refine { blames with errors := fun e mem => ?_ }
      simp only [record, Array.toList_push, List.mem_append, List.mem_singleton] at mem
      rcases mem with old | rfl
      · exact blames.errors e old
      · exact blames.current_mem
  | note | nameLast | nameNext | retag | startNode | startAroundLast | close | closeTo =>
      exact { blames with }

theorem steps (blames : s.Blames stream) {t : State} (steps : Steps s t) : t.Blames stream := by
  induction steps with
  | refl => exact blames
  | tail _ step ih => exact ih.step step

end Blames

theorem initial_blames (kind : NodeKind) (stream : TokenStream) :
    (initial kind stream).Blames stream :=
  ⟨List.suffix_refl _, rfl, fun e mem => by simp [initial] at mem⟩

end State

theorem parseStream_concerns {entry : Entry} {stream : TokenStream} {e : ParseError}
    (mem : e ∈ (parseStream entry stream).errors.toList) : e.Concerns stream :=
  ((State.initial_blames entry.rootKind stream).steps (parseStream_steps entry stream)).errors e mem

namespace LiteralParts

theorem error_origin {flavor : Flavor} {t : Token} {e : LexicalError}
    (mem : e ∈ (ofToken flavor t).errors) (filled : t.span.start < t.span.stop)
    (spelled : t.span.stop = t.span.start + byteLength t.text.toList) :
    e.span.start < t.span.stop := by
  have whole := congrArg byteLength (cut_append (t.kind.terminated? == some true) t.text.toList)
  simp only [ofToken, List.mem_append] at mem
  generalize cut (t.kind.terminated? == some true) t.text.toList = parts at mem whole
  obtain ⟨opening, body, closing⟩ := parts
  rw [byteLength_append, byteLength_append] at whole
  rcases mem with inBody | atPath
  · obtain ⟨tile, tileMem, eq⟩ := List.mem_filterMap.mp inBody
    obtain ⟨-, nonempty, inside⟩ := Tile.exists_read tileMem
    have place : e.span = tile.span := by
      unfold error? at eq
      split at eq
      · rw [← Option.some.inj eq]
      · rw [← Option.some.inj eq]
      · exact absurd eq (by simp)
    rw [place]
    simp only at whole inside
    omega
  · split at atPath
    · obtain rfl := List.mem_singleton.mp atPath
      exact filled
    · simp at atPath

end LiteralParts

namespace TokenStream

theorem starts_before_end {cs : List Char} {e : ParseError} (concerns : e.Concerns (ofText cs))
    (other : ∀ f, e = .syntactic f → f.found ≠ (ofText cs).endOfInput) :
    e.span.start < byteLength cs := by
  cases e with
  | syntactic f =>
      rcases List.mem_append.mp concerns with mem | mem
      · obtain ⟨-, filled, inside⟩ := token_origin mem
        exact Nat.lt_of_lt_of_le filled inside
      · exact absurd (List.mem_singleton.mp mem) (other f rfl)
  | lexical f =>
      obtain ⟨t, tokenMem, flavor, mem⟩ := concerns
      obtain ⟨-, filled, inside⟩ := token_origin tokenMem
      have own : t.own ∈ (ofText cs).toList.flatMap Token.stretches :=
        List.mem_flatMap.mpr ⟨t, List.mem_append_left _ tokenMem, by simp [Token.stretches]⟩
      exact Nat.lt_of_lt_of_le
        (LiteralParts.error_origin mem filled ((ofText_laid cs).stop_of_mem own)) inside

end TokenStream

end UmkaSyntax
