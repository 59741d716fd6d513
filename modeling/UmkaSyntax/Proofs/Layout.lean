import UmkaSyntax.Proofs.Error.Order
import UmkaSyntax.Proofs.Parsing.Likeness
import UmkaSyntax.Proofs.Tree.Extent

namespace UmkaSyntax

namespace ParseError

theorem insertByStart_pairwise {errors : List ParseError}
    (sorted : errors.Pairwise (·.span.start ≤ ·.span.start)) (e : ParseError) :
    (insertByStart e errors).Pairwise (·.span.start ≤ ·.span.start) := by
  induction errors with
  | nil => exact List.pairwise_singleton _ _
  | cons f errors ih =>
      obtain ⟨first, more⟩ := List.pairwise_cons.mp sorted
      rw [insertByStart]
      split
      · rename_i before
        refine List.pairwise_cons.mpr ⟨fun g mem => ?_, sorted⟩
        obtain rfl | mem := List.mem_cons.mp mem
        · exact before
        · exact Nat.le_trans before (first g mem)
      · rename_i behind
        refine List.pairwise_cons.mpr ⟨fun g mem => ?_, ih more⟩
        obtain rfl | mem := mem_insertByStart.mp mem
        · exact Nat.le_of_not_le behind
        · exact first g mem

theorem sortByStart_pairwise (errors : List ParseError) :
    (sortByStart errors).Pairwise (·.span.start ≤ ·.span.start) := by
  induction errors with
  | nil => exact .nil
  | cons e errors ih => exact insertByStart_pairwise ih e

theorem insertByStart_filter (p : ParseError → Bool) {errors : List ParseError}
    (sorted : errors.Pairwise (·.span.start ≤ ·.span.start)) (e : ParseError) :
    (insertByStart e errors).filter p =
      if p e then insertByStart e (errors.filter p) else errors.filter p := by
  induction errors with
  | nil => cases kept : p e <;> simp [insertByStart, kept]
  | cons f errors ih =>
      obtain ⟨first, more⟩ := List.pairwise_cons.mp sorted
      rw [insertByStart]
      split
      · rename_i before
        -- the error comes first, and it also comes before every error that is left
        have early : ∀ g ∈ (f :: errors).filter p, e.span.start ≤ g.span.start := by
          intro g mem
          obtain rfl | mem := List.mem_cons.mp (List.mem_of_mem_filter mem)
          · exact before
          · exact Nat.le_trans before (first g mem)
        have front := insertByStart_left early []
        rw [List.nil_append] at front
        rw [List.filter_cons, front]
        rfl
      · rename_i behind
        rw [List.filter_cons, ih more]
        cases kept : p f
        · simp [kept]
        · cases p e <;> simp [kept, insertByStart, behind]

theorem sortByStart_filter (p : ParseError → Bool) (errors : List ParseError) :
    (sortByStart errors).filter p = sortByStart (errors.filter p) := by
  induction errors with
  | nil => rfl
  | cons e errors ih =>
      change (insertByStart e (sortByStart errors)).filter p = _
      rw [insertByStart_filter p (sortByStart_pairwise errors), ih, List.filter_cons]
      split <;> rfl

section
variable {R : Token → Token → Prop}
  (order : ∀ {x y x' y'}, SamePlace R x y → SamePlace R x' y' → (x ≤ x' ↔ y ≤ y'))
include order

theorem insertByStart_twin {e f : ParseError} (twin : e.Twin R f) {left right : List ParseError}
    (twins : List.Forall₂ (Twin R) left right) :
    List.Forall₂ (Twin R) (insertByStart e left) (insertByStart f right) := by
  induction twins with
  | nil => exact .cons twin .nil
  | cons first more ih =>
      rw [insertByStart, insertByStart]
      simp only [order twin.2 first.2]
      split
      · exact .cons twin (.cons first more)
      · exact .cons first ih

theorem sortByStart_twin {left right : List ParseError} (twins : List.Forall₂ (Twin R) left right) :
    List.Forall₂ (Twin R) (sortByStart left) (sortByStart right) := by
  induction twins with
  | nil => exact .nil
  | cons first _ ih => exact insertByStart_twin order first ih

end

end ParseError

/-- Two sources whose tokens agree position by position. -/
def Source.Alike (left right : String) : Prop :=
  List.Forall₂ Token.Alike (TokenStream.ofText left.toList).tokens
    (TokenStream.ofText right.toList).tokens

instance (left right : String) : Decidable (Source.Alike left right) :=
  inferInstanceAs (Decidable (List.Forall₂ _ _ _))

namespace TokenStream

/-- The tokens at the same position of two streams, the end of the input included. -/
def Beside (left right : TokenStream) (t u : Token) : Prop :=
  (t, u) ∈ left.toList.zip right.toList

section
variable {left right : String} (alike : Source.Alike left right)
include alike

theorem zip_toList : (ofText left.toList).toList.zip (ofText right.toList).toList =
    (ofText left.toList).tokens.zip (ofText right.toList).tokens ++
      [((ofText left.toList).endOfInput, (ofText right.toList).endOfInput)] :=
  List.zip_append alike.length_eq

theorem beside_tokens : List.Forall₂ (Beside (ofText left.toList) (ofText right.toList))
    (ofText left.toList).tokens (ofText right.toList).tokens := by
  refine List.forall₂_iff_zip.mpr ⟨alike.length_eq, fun mem => ?_⟩
  rw [Beside, zip_toList alike]
  exact List.mem_append_left _ mem

theorem beside_endOfInput : Beside (ofText left.toList) (ofText right.toList)
    (ofText left.toList).endOfInput (ofText right.toList).endOfInput := by
  rw [Beside, zip_toList alike]
  exact List.mem_append_right _ List.mem_cons_self

theorem beside_twin (t u : Token)
    (beside : Beside (ofText left.toList) (ofText right.toList) t u) : t.Twin u := by
  rw [Beside, zip_toList alike] at beside
  obtain mem | mem := List.mem_append.mp beside
  · have same := (List.forall₂_iff_zip.mp alike).2 mem
    obtain ⟨left, right⟩ := List.of_mem_zip mem
    exact ⟨same, same.erased_eq left right, (token_letters left).1, (token_letters right).1⟩
  · cases List.mem_singleton.mp mem
    exact ⟨⟨rfl, nofun, nofun⟩, rfl, rfl, rfl⟩

theorem samePlace_le_iff {x y x' y' : Nat}
    (first : SamePlace (Beside (ofText left.toList) (ofText right.toList)) x y)
    (second : SamePlace (Beside (ofText left.toList) (ofText right.toList)) x' y') :
    x ≤ x' ↔ y ≤ y' := by
  let before : Token → Token → Prop := fun t u => t.span.start < t.span.stop ∧ t.span.stop ≤ u.span.start
  have ordered : ∀ cs : List Char, (ofText cs).toList.Pairwise before := by
    intro cs
    have laid := (tokens_ordered (ofText_laid cs)).2
    refine List.pairwise_append.mpr ⟨?_, List.pairwise_singleton _ _, ?_⟩
    · refine ((List.pairwise_append.mp laid).1).imp_of_mem fun mem _ both => ?_
      exact ⟨(token_origin mem).2.1, both.2⟩
    · intro t mem u last
      exact ⟨(token_origin mem).2.1, ((List.pairwise_append.mp laid).2.2 t mem u last).2⟩
  have length : (ofText left.toList).toList.length = (ofText right.toList).toList.length := by
    simp only [toList, List.length_append, alike.length_eq, List.length_singleton]
  let pairs := (ofText left.toList).toList.zip (ofText right.toList).toList
  have both : pairs.Pairwise fun p q => before p.1 q.1 ∧ before p.2 q.2 := by
    refine .and ?_ ?_
    · rw [← List.pairwise_map, List.map_fst_zip (Nat.le_of_eq length)]
      exact ordered _
    · rw [← List.pairwise_map, List.map_snd_zip (Nat.le_of_eq length.symm)]
      exact ordered _
  obtain ⟨t, u, d, here, rfl, rfl, inside⟩ := first
  obtain ⟨t', u', d', there, rfl, rfl, inside'⟩ := second
  have places : (t, u) = (t', u') ∨ (before t t' ∧ before u u') ∨ before t' t ∧ before u' u := by
    obtain ⟨i, hi, eq⟩ := List.getElem_of_mem (show (t, u) ∈ pairs from here)
    obtain ⟨j, hj, eq'⟩ := List.getElem_of_mem (show (t', u') ∈ pairs from there)
    have compared := List.pairwise_iff_getElem.mp both
    obtain earlier | rfl | later := Nat.lt_trichotomy i j
    · have follows := compared i j hi hj earlier
      rw [eq, eq'] at follows
      exact .inr (.inl follows)
    · exact .inl (eq.symm.trans eq')
    · have follows := compared j i hj hi later
      rw [eq, eq'] at follows
      exact .inr (.inr follows)
  -- Tokens are not empty, so an order of tokens is one of their starts.
  obtain same | ⟨⟨filled, order⟩, filled', order'⟩ | ⟨⟨filled, order⟩, filled', order'⟩ := places
  · cases same
    omega
  · omega
  · omega

end

end TokenStream

def ErrorKind.outsideComments (kind : ErrorKind) : Bool := kind != .lexical .unterminatedComment

def Parsed.errorKinds (parsed : Parsed) : List ErrorKind :=
  (parsed.errors.map ParseError.kind).filter ErrorKind.outsideComments

section
variable {left right : String} (alike : Source.Alike left right)
include alike

theorem unlimitedErrors_twin (entry : Entry) :
    ((unlimitedErrors entry left).map ParseError.kind).filter ErrorKind.outsideComments =
      ((unlimitedErrors entry right).map ParseError.kind).filter ErrorKind.outsideComments := by
  let R := TokenStream.Beside (TokenStream.ofText left.toList) (TokenStream.ofText right.toList)
  let kept : ParseError → Bool := fun e => e.kind.outsideComments
  have twins := TokenStream.beside_twin alike
  have tokens := TokenStream.beside_tokens alike
  have parsed := parseStream_twin twins entry tokens (TokenStream.beside_endOfInput alike)
  have lexical : ∀ cs : List Char,
      ((TokenStream.ofText cs).errors.map ParseError.lexical).filter kept =
        ((TokenStream.ofText cs).tokens.filterMap Token.lexicalError?).map .lexical := by
    intro cs
    rw [← TokenStream.errors_filter, List.filter_map]
    congr 2
    funext e
    obtain ⟨issue, span⟩ := e
    cases issue <;> rfl
  have lexed : List.Forall₂ (ParseError.Twin R)
      (((TokenStream.ofText left.toList).errors.map ParseError.lexical).filter kept)
      (((TokenStream.ofText right.toList).errors.map ParseError.lexical).filter kept) := by
    rw [lexical, lexical, List.map_filterMap, List.map_filterMap]
    refine List.rel_filterMap (fun t u beside => ?_) tokens
    have kind := (twins t u beside).alike.1
    simp only [Token.lexicalError?, ← kind]
    cases TokenStream.issue? (.token t.kind) with
    | none => exact .none
    | some issue => exact .some ⟨rfl, t, u, 0, beside, rfl, rfl, .inl rfl⟩
  have read : List.Forall₂ (ParseError.Twin R)
      ((parseStream entry (TokenStream.ofText left.toList)).errors.toList.filter kept)
      ((parseStream entry (TokenStream.ofText right.toList)).errors.toList.filter kept) :=
    List.rel_filter (fun e f twin => by simp only [kept, twin.1]) parsed.errors
  have sorted := ParseError.sortByStart_twin (TokenStream.samePlace_le_iff alike)
    (List.rel_append lexed read)
  -- Sorting is stable and filtering commutes with it, so unterminated comments can be left out
  -- beforehand.
  have kinds : ∀ source : String,
      ((unlimitedErrors entry source).map ParseError.kind).filter ErrorKind.outsideComments =
        (ParseError.sortByStart
          (((TokenStream.ofText source.toList).errors.map ParseError.lexical).filter kept ++
            (parseStream entry (TokenStream.ofText source.toList)).errors.toList.filter kept)).map
          ParseError.kind := by
    intro source
    rw [List.filter_map, unlimitedErrors, ← List.filter_append, ← ParseError.sortByStart_filter]
    rfl
  rw [kinds, kinds, ← List.forall₂_eq_eq_eq, List.forall₂_map_left_iff, List.forall₂_map_right_iff]
  exact sorted.imp fun _ _ twin => twin.1

theorem root_twin (entry : Entry) :
    (parseStream entry (TokenStream.ofText left.toList)).root.erased =
      (parseStream entry (TokenStream.ofText right.toList)).root.erased := by
  have twins := TokenStream.beside_twin alike
  have parsed := parseStream_twin twins entry (TokenStream.beside_tokens alike)
    (TokenStream.beside_endOfInput alike)
  refine OpenNode.Alike.toNode (parsed.builder.top.add ?_)
  rw [Child.erased, (twins _ _ parsed.endOfInput).erased, Child.erased]

end

/-- Sources whose tokens are alike have the same tree up to places, trivia, names, numbers and
unknown characters. Their S-expressions are the same text, and without a limit their errors have
the same kinds in the same order. -/
theorem parse_layout_invariant {left right : String} (alike : Source.Alike left right)
    (entry : Entry) :
    (∀ limit limit', (parse entry limit left).root.erased = (parse entry limit' right).root.erased ∧
      (parse entry limit left).root.sExpression = (parse entry limit' right).root.sExpression) ∧
    ∃ bound, ∀ limit, bound ≤ limit →
      (parse entry limit left).errorKinds = (parse entry limit right).errorKinds := by
  constructor
  · intro limit limit'
    have trees : (parse entry limit left).root.erased = (parse entry limit' right).root.erased :=
      root_twin alike entry
    refine ⟨trees, ?_⟩
    rw [← Node.sExpression_erased, trees, Node.sExpression_erased]
  · obtain ⟨bound, unlimited⟩ := exists_unlimited entry left
    obtain ⟨bound', unlimited'⟩ := exists_unlimited entry right
    refine ⟨max bound bound', fun limit enough => ?_⟩
    rw [Parsed.errorKinds, Parsed.errorKinds, unlimited limit (Nat.le_trans (Nat.le_max_left _ _) enough),
      unlimited' limit (Nat.le_trans (Nat.le_max_right _ _) enough)]
    exact unlimitedErrors_twin alike entry

/-- Other names, numbers and spaces, and a comment that is never closed. -/
theorem reformatted_layout_invariant :
    Source.Alike "x := 1 $" "total  :=  42 # /* sum" ∧
      (∀ limit limit',
        (parse .program limit "x := 1 $").root.erased =
            (parse .program limit' "total  :=  42 # /* sum").root.erased ∧
          (parse .program limit "x := 1 $").root.sExpression =
            (parse .program limit' "total  :=  42 # /* sum").root.sExpression) ∧
      ∃ bound, ∀ limit, bound ≤ limit →
        (parse .program limit "x := 1 $").errorKinds =
          (parse .program limit "total  :=  42 # /* sum").errorKinds := by
  have alike : Source.Alike "x := 1 $" "total  :=  42 # /* sum" := by decide +kernel
  exact ⟨alike, parse_layout_invariant alike .program⟩

end UmkaSyntax
