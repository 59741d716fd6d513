import UmkaSyntax.Proofs.Parsing.Whole

namespace UmkaSyntax
open UmkaSyntax.Part

namespace LiteralParts

def pieceKinds : List (List TokenKind) :=
  [[.quote], [.literalText], [.escape], [.format], [.name, .moduleSuffix]]

theorem kinds_dress (token : Token) (pieces : List LiteralPiece) :
    (dress token pieces).map (·.tokens.map (·.kind)) = pieces.map (·.tokens.map (·.kind)) := by
  refine map_dress ?_ ?_ token pieces
  all_goals
    rintro trivia (t | ⟨name, suffix⟩) <;> rfl

theorem kinds_ofToken (flavor : Flavor) (token : Token) :
    ∀ p ∈ (ofToken flavor token).pieces, p.tokens.map (·.kind) ∈ pieceKinds := by
  intro p mem
  have kinds : p.tokens.map (·.kind) ∈ (ofToken flavor token).pieces.map (·.tokens.map (·.kind)) :=
    List.mem_map_of_mem mem
  have inner : ∀ tile, (piece tile).tokens.map (·.kind) ∈ pieceKinds := by
    intro tile
    unfold piece
    split <;> simp [LiteralPiece.tokens, bareToken, Token.bare, pieceKinds]
  have quoted : ∀ offset cs, (quote offset cs).tokens.map (·.kind) ∈ pieceKinds := by
    simp [quote, LiteralPiece.tokens, Token.bare, pieceKinds]
  simp only [ofToken] at kinds
  rw [kinds_dress] at kinds
  obtain ⟨q, isPiece, eq⟩ := List.mem_map.mp kinds
  rw [← eq]
  simp only [List.mem_append, List.mem_cons, List.mem_map] at isPiece
  obtain (rfl | ⟨tile, -, rfl⟩) | closing := isPiece
  · exact quoted _ _
  · exact inner tile
  · split at closing
    · cases closing
    · obtain rfl := List.mem_singleton.mp closing
      exact quoted _ _

theorem kind_of_mem_tokens {flavor : Flavor} {token u : Token}
    (mem : u ∈ (ofToken flavor token).tokens) :
    u.kind ∈ [TokenKind.quote, .literalText, .escape, .format, .name, .moduleSuffix] := by
  obtain ⟨p, isPiece, own⟩ := List.mem_flatMap.mp mem
  have kinds := kinds_ofToken flavor token p isPiece
  have sub : ∀ kinds ∈ pieceKinds, kinds ⊆
      [TokenKind.quote, .literalText, .escape, .format, .name, .moduleSuffix] := by
    decide
  exact sub _ kinds (List.mem_map_of_mem own)

end LiteralParts

namespace Form

def places (broken : Bool) : Form → List (Option FieldName × Symbol)
  | nothing | empty => []
  | one label symbols => symbols.map fun symbol => (label, symbol)
  | run kinds => kinds.map fun kind => (none, .token kind)
  | ending => [(none, .token .semicolon), (none, .token .newline)]
  | seq first second | alt first second => first.places broken ++ second.places broken
  | many item | attempt item => item.places broken
  | list _ item before after =>
      item.places broken ++ before.places broken ++ after.places broken ++
        [(none, .token (.punct .comma))]
  | whenBroken form => if broken then form.places broken else []

/-- The part fills one of the places, once nothing is missing at its end. -/
def Placed (places : List (Option FieldName × Symbol)) (part : Part) : Prop :=
  ∃ place ∈ places, part.label = place.1 ∧ place.2.Fits part.mended

theorem Placed.mono {places more : List (Option FieldName × Symbol)} {part : Part}
    (placed : Placed places part) (sub : places ⊆ more) : Placed more part := by
  obtain ⟨place, mem, fits⟩ := placed
  exact ⟨place, sub mem, fits⟩

theorem mended_mended (part : Part) : part.mended.mended = part.mended := by
  cases part <;> rfl

theorem Symbol.Fits.mended {symbol : Symbol} {part : Part} (fits : symbol.Fits part) :
    symbol.Fits part.mended := by
  cases part with
  | node label kind whole parts =>
      cases symbol with
      | node kind' => exact ⟨fits.1, rfl⟩
      | token | keyword | builtin | literal | raw => exact fits.elim
  | token | keyword | literal => exact fits

theorem Unfinished.placed {phrases : Phrases} {places : List (Option FieldName × Symbol)}
    (each : ∀ parts next, phrases parts next → ∀ part ∈ parts, Placed places part)
    {parts : List Part} (unfinished : phrases.Unfinished parts) : ∀ part ∈ parts, Placed places part := by
  obtain ⟨more, next, whole | ⟨before, last, rfl, whole⟩⟩ := unfinished
  · exact fun part mem => each _ _ whole part (List.mem_append_left _ mem)
  · intro part mem
    obtain mem | mem := List.mem_append.mp mem
    · exact each _ _ whole part (List.mem_append_left _ mem)
    · obtain rfl := List.mem_singleton.mp mem
      obtain ⟨place, isPlace, label, fits⟩ := each _ _ whole part.mended (by simp)
      exact ⟨place, isPlace, by rw [← label, label_mended], by rwa [mended_mended] at fits⟩

theorem Sentence.placed {broken : Prop} {b : Bool} (hb : broken → b = true) {form : Form}
    {parts : List Part} {next : TokenKind} (sentence : form.Sentence broken parts next) :
    ∀ part ∈ parts, Placed (form.places b) part := by
  induction form generalizing parts next with
  | nothing => exact sentence.elim
  | empty =>
      obtain rfl : parts = [] := sentence
      simp
  | one label symbols =>
      obtain ⟨part, rfl, named, symbol, mem, fits⟩ := sentence
      simp only [List.forall_mem_singleton]
      exact ⟨(label, symbol), List.mem_map_of_mem mem, named, Symbol.Fits.mended fits⟩
  | run kinds =>
      intro part mem
      obtain ⟨t, rfl, kind⟩ := sentence.1 part mem
      exact ⟨(none, .token t.kind), List.mem_map_of_mem kind, rfl, rfl⟩
  | ending =>
      intro part mem
      obtain ⟨t, rfl, terminates⟩ := sentence.1 part mem
      have kind : t.kind = .semicolon ∨ t.kind = .newline := by
        simpa [TokenKind.isTerminator] using terminates
      exact ⟨(none, .token t.kind), by simpa [places] using kind, rfl, rfl⟩
  | seq first second ih₁ ih₂ =>
      obtain ⟨left, right, rfl, hl, hr⟩ := sentence
      intro part mem
      obtain mem | mem := List.mem_append.mp mem
      · exact (ih₁ hl part mem).mono (List.subset_append_left _ _)
      · exact (ih₂ hr part mem).mono (List.subset_append_right _ _)
  | alt left right ih₁ ih₂ =>
      intro part mem
      obtain hl | hr := sentence
      · exact (ih₁ hl part mem).mono (List.subset_append_left _ _)
      · exact (ih₂ hr part mem).mono (List.subset_append_right _ _)
  | many item ih =>
      change ∀ part ∈ parts, Placed (item.places b) part
      induction sentence with
      | nil => simp
      | cons hf _ rest =>
          intro part mem
          exact (List.mem_append.mp mem).elim (ih hf part) (rest part)
  | list ends item before after ih₁ ih₂ ih₃ =>
      have own : ∀ {parts next}, item.Sentence broken parts next → ∀ part ∈ parts,
          Placed ((list ends item before after).places b) part := fun h part mem =>
        (ih₁ h part mem).mono fun place own => by simp [places, own]
      have gap : ∀ {parts next}, before.Sentence broken parts next → ∀ part ∈ parts,
          Placed ((list ends item before after).places b) part := fun h part mem =>
        (ih₂ h part mem).mono fun place own => by simp [places, own]
      have space : ∀ {parts next}, after.Sentence broken parts next → ∀ part ∈ parts,
          Placed ((list ends item before after).places b) part := fun h part mem =>
        (ih₃ h part mem).mono fun place own => by simp [places, own]
      induction sentence with
      | stop => simp
      | last hi hg =>
          intro part mem
          exact (List.mem_append.mp mem).elim (own hi part) (gap hg part)
      | more isComma hi hg hs _ rest =>
          intro part mem
          simp only [List.mem_append, List.mem_cons] at mem
          obtain mem | mem | rfl | mem | mem := mem
          · exact own hi part mem
          · exact gap hg part mem
          · exact ⟨(none, .token (.punct .comma)), by simp [places], rfl, isComma⟩
          · exact space hs part mem
          · exact rest part mem
  | attempt form ih =>
      obtain whole | ⟨-, unfinished⟩ := sentence
      · exact ih whole
      · exact Unfinished.placed (fun _ _ => ih) unfinished
  | whenBroken form ih =>
      intro part mem
      have placed := ih sentence.2 part mem
      rwa [places, if_pos (hb sentence.1)]

end Form

/-- The child is what the symbol stands for. -/
def Symbol.Stands : Symbol → Child → Prop
  | token kind, .token t => t.kind = kind
  | keyword k, .token t => t.kind = .keyword ∧ Keyword.ofSpelling? t.text = some k
  | builtin family, .token t => t.kind = .name ∧ BuiltinFamily.ofName? t.text = some family
  | literal kind, .node n | node kind, .node n => n.kind = kind
  | raw, .token t => t.kind.isLiteral = false ∧ t.kind ≠ .endOfInput
  | raw, .node n => n.kind = .stringLiteral ∨ n.kind = .charLiteral
  | _, _ => False

theorem Symbol.Fits.stands {symbol : Symbol} {part : Part} (fits : symbol.Fits part.mended) :
    symbol.Stands part.toChild := by
  cases part with
  | token label t =>
      cases symbol with
      | token | builtin | raw => exact fits
      | keyword | literal | node => exact fits.elim
  | keyword label t =>
      cases symbol with
      | keyword k =>
          obtain ⟨isName, word⟩ := fits
          rw [Part.toChild, State.asKeyword, if_pos isName]
          exact ⟨rfl, word⟩
      | token | builtin | literal | node | raw => exact fits.elim
  | literal label kind t =>
      cases symbol with
      | literal kind' => exact fits.1
      | raw => exact fits.1
      | token | builtin | keyword | node => exact fits.elim
  | node label kind whole parts =>
      cases symbol with
      | node kind' => exact fits.1
      | token | builtin | keyword | literal | raw => exact fits.elim

def Symbol.isError : Symbol → Bool
  | node kind | literal kind => kind == .error
  | _ => false

theorem Symbol.Stands.kind_ne {symbol : Symbol} {n : Node} (stands : symbol.Stands (.node n))
    (other : symbol.isError = false) : n.kind ≠ .error := by
  cases symbol with
  | token | keyword | builtin => exact stands.elim
  | raw => rcases stands with kind | kind <;> rw [kind] <;> decide
  | literal kind | node kind =>
      rw [show n.kind = kind from stands]
      simpa [isError] using other

def Entry.production (entry : Entry) (kind : NodeKind) : Form :=
  if kind = entry.rootKind then entry.form else UmkaSyntax.production kind

inductive Shown (broken : Prop) (entry : Entry) : Node → Prop
  | node {kind : NodeKind} {parts : List Part} {next : TokenKind} {depth : Nat} :
      ((entry.production kind).Sentence broken parts next ∨
        broken ∧ ((entry.production kind).Sentence broken).Unfinished parts) →
      LicensedAll (Shape broken) depth parts next →
      Shown broken entry
        (Node.ofChildren kind (toChildren parts) (fieldsOf (parts.map Part.label)) 0)
  | literal {kind : NodeKind} {t : Token} : kind.splits t.kind = true →
      Shown broken entry ((LiteralParts.ofToken kind.flavor t).toNode kind t.span.start)
  | moduleRef {word suffix : Token} : word.kind = .name → suffix.kind = .moduleSuffix →
      Shown broken entry (Node.ofChildren .moduleRef [.token word, .token suffix] [⟨.name, [0]⟩]
        word.span.start)

variable {broken : Prop} {entry : Entry} {n m : Node}

theorem Shape.production_eq {depth : Nat} {kind : NodeKind} {whole : Bool} {parts : List Part}
    {next : TokenKind} (shape : Shape broken depth kind whole parts next) (entry : Entry) :
    (entry.production kind).Sentence broken parts next ∨
      broken ∧ ((entry.production kind).Sentence broken).Unfinished parts := by
  have other : kind ≠ entry.rootKind := by
    rintro rfl
    have nothing : UmkaSyntax.production entry.rootKind = .nothing := by cases entry <;> rfl
    rw [Shape, nothing] at shape
    obtain ⟨-, ⟨-, never⟩ | ⟨-, -, more, k, never | ⟨_, _, -, never⟩⟩⟩ := shape <;> exact never
  rw [Entry.production, if_neg other]
  obtain ⟨-, ⟨-, sentence⟩ | ⟨hb, -, unfinished⟩⟩ := shape
  · exact .inl sentence
  · exact .inr ⟨hb, unfinished⟩

theorem Part.LicensedAll.mem {R : Nat → NodeKind → Bool → List Part → TokenKind → Prop}
    {depth : Nat} {parts : List Part} {next : TokenKind} {part : Part}
    (licensed : LicensedAll R depth parts next) (mem : part ∈ parts) :
    ∃ next, Licensed R depth part next := by
  obtain ⟨before, after, rfl⟩ := List.append_of_mem mem
  exact ⟨firstKind after next, (licensedAll_append.mp licensed).2.1⟩

theorem Shown.placed {kind : NodeKind} {parts : List Part} {next : TokenKind} {b : Bool}
    (hb : broken → b = true)
    (shape : (entry.production kind).Sentence broken parts next ∨
      broken ∧ ((entry.production kind).Sentence broken).Unfinished parts) :
    ∀ part ∈ parts, Form.Placed ((entry.production kind).places b) part := by
  obtain sentence | ⟨-, unfinished⟩ := shape
  · exact sentence.placed hb
  · exact Form.Unfinished.placed (fun _ _ sentence => sentence.placed hb) unfinished

theorem Shown.child (shown : Shown broken entry n) (mem : .node m ∈ n.children) :
    Shown broken entry m := by
  cases shown with
  | @node kind parts next depth shape licensed =>
      change Child.node m ∈ toChildren parts at mem
      rw [toChildren_eq_map] at mem
      obtain ⟨part, isPart, eq⟩ := List.mem_map.mp mem
      cases part with
      | token | keyword => cases eq
      | literal label kind t =>
          obtain ⟨place, -, -, fits⟩ := Shown.placed (fun _ => rfl) shape _ isPart
          cases eq
          exact .literal fits.splits
      | node label kind whole inner =>
          obtain ⟨next, shape, licensed⟩ := Part.LicensedAll.mem licensed isPart
          cases eq
          exact .node (shape.production_eq entry) licensed
  | @literal kind t splits =>
      change Child.node m ∈ (LiteralParts.ofToken kind.flavor t).pieces.map LiteralPiece.toChild at mem
      obtain ⟨piece, isPiece, eq⟩ := List.mem_map.mp mem
      have kinds := LiteralParts.kinds_ofToken kind.flavor t piece isPiece
      cases piece with
      | token => cases eq
      | module word suffix =>
          cases eq
          have words : word.kind = .name ∧ suffix.kind = .moduleSuffix := by
            simpa [LiteralPiece.tokens, LiteralParts.pieceKinds] using kinds
          exact .moduleRef words.1 words.2
  | moduleRef =>
      change Child.node m ∈ [_, _] at mem
      simp at mem

theorem Shown.within (shown : Shown broken entry n) (within : m.Within n) : Shown broken entry m := by
  induction within with
  | self => exact shown
  | child mem _ ih => exact ih (shown.child mem)

theorem TreeOf.shown {tokens : List Token} {parts : List Part}
    (tree : TreeOf broken entry tokens n parts) : Shown broken entry n := by
  have eq := tree.tree
  cases eq
  refine .node (.inl ?_) (tree.licensed 0)
  rw [Entry.production, if_pos rfl]
  exact tree.sentence

end UmkaSyntax
