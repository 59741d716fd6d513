import UmkaSyntax.Proofs.Lexing.Origin
import UmkaSyntax.Proofs.Literal.Body

namespace UmkaSyntax

namespace Segment

def fault? : Segment → Option LexicalKind
  | invalidEscape => some .invalidEscape
  | invalidFormat => some .invalidFormat
  | _ => none

def isModule : Segment → Bool
  | module _ => true
  | _ => false

end Segment

namespace LiteralParts

def areSequence (marks : List (TokenKind × Stretch)) : Bool :=
  marks.all fun mark => mark.1 != .quote && mark.1 != .literalText

def sequences (l : LiteralParts) : List (List (TokenKind × Stretch)) :=
  (l.pieces.map LiteralPiece.marks).filter areSequence

def faults (l : LiteralParts) : List LexicalError :=
  l.errors.filter fun e => e.issue.kind != .missingModule

/-- The literal is taken apart as its body reads. -/
structure Follows (l : LiteralParts) (flavor : Flavor) (t : Token) (body : List Char)
    (reading : List (Tile Segment)) : Prop where
  accepted : (∀ e ∈ l.errors, e.issue.kind ≠ .invalidEscape ∧ e.issue.kind ≠ .invalidFormat) ↔
    WellFormed flavor body
  sequences : l.sequences = reading.filterMap Tile.sequence?
  faults : l.faults.map (fun e => (e.issue.kind, e.span)) =
    reading.filterMap fun tile => tile.what.fault?.map (·, tile.span)
  missing : l.errors.filter (fun e => e.issue.kind == .missingModule) =
    if flavor = .path ∧ ¬reading.any (·.what.isModule) then [⟨.missingModule, t.span⟩] else []
  apart : l.faults.Pairwise (·.span.stop ≤ ·.span.start)
  inside : ∀ e ∈ l.faults, e.span.start < e.span.stop ∧
    ∃ u ∈ l.tokens, u.kind = .literalText ∧ u.span.start ≤ e.span.start ∧ e.span.stop ≤ u.span.stop

theorem error?_fault (tile : Tile Segment) :
    (error? tile).map (fun e => (e.issue.kind, e.span)) = tile.what.fault?.map (·, tile.span) := by
  obtain ⟨what, span, text⟩ := tile
  cases what <;> rfl

theorem isText_of_error {tile : Tile Segment} {e : LexicalError} (error : error? tile = some e) :
    tile.what.isText = true ∧ e.span = tile.span ∧
      (e.issue.kind = .invalidEscape ∨ e.issue.kind = .invalidFormat) := by
  obtain ⟨what, span, text⟩ := tile
  cases what <;> cases error
  · exact ⟨rfl, rfl, .inl rfl⟩
  · exact ⟨rfl, rfl, .inr rfl⟩

theorem isKnown_iff {tile : Tile Segment} : tile.what.IsKnown ↔ error? tile = none := by
  obtain ⟨what, span, text⟩ := tile
  cases what <;> simp [Segment.IsKnown, error?]

theorem filter_marks (tiles : List (Tile Segment)) :
    (tiles.map Tile.marks).filter areSequence = tiles.filterMap Tile.sequence? := by
  induction tiles with
  | nil => rfl
  | cons tile tiles ih =>
      obtain ⟨what, span, text⟩ := tile
      rw [List.map_cons, List.filter_cons, List.filterMap_cons, ih]
      cases what <;> rfl

theorem any_isModule (flavor : Flavor) (t : Token) (body : List Char) :
    (bodyPieces flavor t body).any LiteralPiece.isModule =
      (bodyTiles flavor t body).any (·.what.isModule) := by
  have text : ∀ tile : Tile Segment, tile.what.isText = true →
      (Option.guard (·.what.isModule) tile) = none := by
    rintro ⟨what, span, letters⟩ isText
    cases what <;> first | rfl | cases isText
  have modules := filterMap_joinText text (bodyTiles flavor t body)
  have piece_isModule : ∀ tile, (piece tile).isModule = tile.what.isModule := by
    rintro ⟨what, span, letters⟩
    cases what <;> rfl
  rw [List.filterMap_eq_filter] at modules
  rw [bodyPieces, List.any_map, Bool.eq_iff_iff]
  simp only [List.any_eq_true, Function.comp_apply, piece_isModule]
  refine exists_congr fun tile => ?_
  have both : tile ∈ _ ↔ tile ∈ _ := iff_of_eq (congrArg (tile ∈ ·) modules)
  rwa [List.mem_filter, List.mem_filter] at both

section
variable {flavor : Flavor} {t : Token} {body : List Char} (has : t.HasBody body)
include has

theorem faults_ofToken :
    (ofToken flavor t).faults = (bodyTiles flavor t body).filterMap error? := by
  obtain ⟨opening, -, eq⟩ := ofToken_of_hasBody flavor has
  have all : ((bodyTiles flavor t body).filterMap error?).filter
      (fun e => e.issue.kind != .missingModule) = (bodyTiles flavor t body).filterMap error? := by
    refine List.filter_eq_self.mpr fun e mem => ?_
    obtain ⟨tile, -, error⟩ := List.mem_filterMap.mp mem
    obtain ⟨-, -, kind | kind⟩ := isText_of_error error <;> rw [kind] <;> rfl
  rw [faults, eq, List.filter_append, all]
  split <;> simp [LexicalIssue.kind]

theorem missing_ofToken : (ofToken flavor t).errors.filter (fun e => e.issue.kind == .missingModule) =
    if flavor = .path ∧ ¬(bodyTiles flavor t body).any (·.what.isModule) then
      [⟨.missingModule, t.span⟩] else [] := by
  obtain ⟨opening, -, eq⟩ := ofToken_of_hasBody flavor has
  have none : ((bodyTiles flavor t body).filterMap error?).filter
      (fun e => e.issue.kind == .missingModule) = [] := by
    refine List.filter_eq_nil_iff.mpr fun e mem => ?_
    obtain ⟨tile, -, error⟩ := List.mem_filterMap.mp mem
    obtain ⟨-, -, kind | kind⟩ := isText_of_error error <;> rw [kind] <;> decide
  rw [eq, List.filter_append, none, List.nil_append, any_isModule]
  split <;> rfl

theorem sequences_ofToken :
    (ofToken flavor t).sequences = (bodyTiles flavor t body).filterMap Tile.sequence? := by
  obtain ⟨opening, -, marks⟩ := marks_ofToken flavor has
  have quotes : ((closingStretches t body).map Stretch.quoteMarks).filter areSequence = [] := by
    unfold closingStretches
    split <;> rfl
  have text : ∀ tile : Tile Segment, tile.what.isText = true → tile.sequence? = none := by
    rintro ⟨what, span, letters⟩ isText
    cases what <;> first | rfl | cases isText
  rw [sequences, marks, List.filter_cons_of_neg Bool.false_ne_true, List.filter_append, quotes,
    List.append_nil, filter_marks, filterMap_joinText text]

theorem accepted_iff :
    (∀ e ∈ (ofToken flavor t).errors,
      e.issue.kind ≠ .invalidEscape ∧ e.issue.kind ≠ .invalidFormat) ↔ WellFormed flavor body := by
  have known := tilesAfter_known_iff flavor (t.span.start + 1) 0 body
  rw [List.drop_zero] at known
  rw [← known]
  obtain ⟨opening, -, eq⟩ := ofToken_of_hasBody flavor has
  rw [eq]
  constructor
  · intro clean tile mem
    rw [isKnown_iff, Option.eq_none_iff_forall_ne_some]
    intro e error
    have other := clean e (List.mem_append_left _ (List.mem_filterMap.mpr ⟨tile, mem, error⟩))
    obtain ⟨-, -, kind | kind⟩ := isText_of_error error
    · exact other.1 kind
    · exact other.2 kind
  · intro known e mem
    rcases List.mem_append.mp mem with mem | mem
    · obtain ⟨tile, mem, error⟩ := List.mem_filterMap.mp mem
      rw [isKnown_iff.mp (known tile mem)] at error
      cases error
    · split at mem
      · obtain rfl := List.mem_singleton.mp mem
        exact ⟨nofun, nofun⟩
      · cases mem

theorem faults_apart : (ofToken flavor t).faults.Pairwise (·.span.stop ≤ ·.span.start) := by
  have laid := tiles_laid (Segment.read flavor) (t.span.start + 1) body
  rw [faults_ofToken has]
  refine (List.pairwise_map.mp laid.pairwise.1).filterMap _ fun left right apart e error f other => ?_
  rw [(isText_of_error error).2.1, (isText_of_error other).2.1]
  exact apart

theorem faults_inside : ∀ e ∈ (ofToken flavor t).faults, e.span.start < e.span.stop ∧
    ∃ u ∈ (ofToken flavor t).tokens, u.kind = .literalText ∧ u.span.start ≤ e.span.start ∧
      e.span.stop ≤ u.span.stop := by
  intro e mem
  rw [faults_ofToken has] at mem
  obtain ⟨tile, mem, error⟩ := List.mem_filterMap.mp mem
  obtain ⟨isText, span, -⟩ := isText_of_error error
  obtain ⟨joined, isJoined, what, start, stop⟩ := exists_joined mem isText
  have marked : (.literalText, joined.stretch) ∈ (ofToken flavor t).tokens.map Token.mark := by
    obtain ⟨opening, -, marks⟩ := marks_ofToken flavor has
    rw [marks_tokens, marks]
    refine List.mem_flatten.mpr ⟨joined.marks, ?_, ?_⟩
    · exact List.mem_cons_of_mem _ (List.mem_append_left _ (List.mem_map_of_mem isJoined))
    · rw [Tile.marks, Tile.sequence?, what]
      exact List.mem_cons_self
  obtain ⟨u, isToken, mark⟩ := List.mem_map.mp marked
  obtain ⟨kind, own⟩ := Prod.mk.inj mark
  have place : u.span = joined.span := congrArg Stretch.span own
  rw [span]
  refine ⟨(Tile.exists_read mem).2.1, u, isToken, kind, ?_, ?_⟩ <;> rw [place] <;> assumption

end

/-- A literal is taken apart as its body reads, and its body has one reading. -/
theorem ofToken_follows (flavor : Flavor) {t : Token} {body : List Char} (has : t.HasBody body) :
    ∃ reading, (∀ other, Reading flavor (t.span.start + 1) body other ↔ other = reading) ∧
      (ofToken flavor t).Follows flavor t body reading := by
  refine ⟨bodyTiles flavor t body,
    tiling_iff (fun _ _ _ _ => Segment.stands_iff) (t.span.start + 1) body, ?_⟩
  refine ⟨accepted_iff has, sequences_ofToken has, ?_, missing_ofToken has, faults_apart has,
    faults_inside has⟩
  rw [faults_ofToken has, List.map_filterMap]
  exact List.filterMap_congr fun tile _ => error?_fault tile

def oddPath : Token := Token.bare (.string true) ⟨7, 17⟩ "\"std.um\\q\""

theorem oddPath_follows :
    oddPath.HasBody ['s', 't', 'd', '.', 'u', 'm', '\\', 'q'] ∧
      ∃ reading,
        (∀ other, Reading .path 8 ['s', 't', 'd', '.', 'u', 'm', '\\', 'q'] other ↔ other = reading) ∧
        (ofToken .path oddPath).Follows .path oddPath ['s', 't', 'd', '.', 'u', 'm', '\\', 'q']
          reading := by
  have has : oddPath.HasBody ['s', 't', 'd', '.', 'u', 'm', '\\', 'q'] :=
    .closed .string rfl (by decide)
  exact ⟨has, ofToken_follows .path has⟩

end LiteralParts

end UmkaSyntax
