import UmkaSyntax.Error.Syntax
import UmkaSyntax.Proofs.Source.Layout
import UmkaSyntax.Tree.Basic

namespace UmkaSyntax

def Span.shift (k : Nat) (s : Span) : Span := ⟨s.start + k, s.stop + k⟩

theorem Span.cover_shift (k : Nat) (s t : Span) :
    (s.shift k).cover (t.shift k) = (s.cover t).shift k := by
  simp only [cover, shift, Span.mk.injEq]
  omega

def Tile.shift {α : Type} (k : Nat) (tile : Tile α) : Tile α :=
  { tile with span := tile.span.shift k }

theorem tilesAfter_shift {α : Type} (read : Reader α) (k offset skip : Nat) (cs : List Char) :
    tilesAfter read (offset + k) skip cs = (tilesAfter read offset skip cs).map (Tile.shift k) := by
  induction cs generalizing offset skip with
  | nil => rfl
  | cons c cs ih =>
      have next : offset + k + c.utf8Size = offset + c.utf8Size + k := by omega
      cases skip with
      | zero =>
          simp only [tilesAfter, List.map_cons, next, ih]
          congr 1
          simp only [Tile.shift, Span.shift, Tile.mk.injEq, Span.mk.injEq, true_and, and_true]
          omega
      | succ skip => simp only [tilesAfter, next, ih]

theorem tiles_shift {α : Type} (read : Reader α) (k offset : Nat) (cs : List Char) :
    tiles read (offset + k) cs = (tiles read offset cs).map (Tile.shift k) :=
  tilesAfter_shift read k offset 0 cs

def Trivia.shift (k : Nat) (t : Trivia) : Trivia := { t with span := t.span.shift k }

def Token.shift (k : Nat) (t : Token) : Token where
  kind := t.kind
  span := t.span.shift k
  text := t.text
  leading := t.leading.map (Trivia.shift k)
  trailing := t.trailing.map (Trivia.shift k)

theorem Token.shift_comm (j k : Nat) (t : Token) : (t.shift j).shift k = (t.shift k).shift j := by
  have spans : ∀ s : Span, (s.shift j).shift k = (s.shift k).shift j := by
    intro s
    simp only [Span.shift, Nat.add_right_comm]
  have trivia : Trivia.shift k ∘ Trivia.shift j = Trivia.shift j ∘ Trivia.shift k := by
    funext t
    simp only [Function.comp_apply, Trivia.shift, spans]
  simp only [Token.shift, spans, List.map_map, trivia]

mutual

def Node.shift (k : Nat) : Node → Node
  | ⟨kind, span, children, fields⟩ => ⟨kind, span.shift k, Child.shiftAll k children, fields⟩

def Child.shift (k : Nat) : Child → Child
  | .token t => .token (t.shift k)
  | .node n => .node (n.shift k)

def Child.shiftAll (k : Nat) : List Child → List Child
  | [] => []
  | child :: more => child.shift k :: Child.shiftAll k more

end

theorem Child.shiftAll_eq_map (k : Nat) (children : List Child) :
    shiftAll k children = children.map (shift k) := by
  induction children with
  | nil => rw [shiftAll, List.map_nil]
  | cons child more ih => rw [shiftAll, ih, List.map_cons]

@[simp] theorem Child.span_shift (k : Nat) (child : Child) :
    (child.shift k).span = child.span.shift k := by
  cases child with
  | token t => rw [shift]; rfl
  | node n => cases n; rw [shift, Node.shift]; rfl

@[simp] theorem Node.kind_shift (k : Nat) (n : Node) : (n.shift k).kind = n.kind := by
  cases n
  rw [shift]

theorem Node.ofChildren_shift (k : Nat) (kind : NodeKind) (children : List Child)
    (fields : List Field) (offset : Nat) :
    (Node.ofChildren kind children fields offset).shift k =
      Node.ofChildren kind (children.map (Child.shift k)) fields (offset + k) := by
  rw [Node.ofChildren.eq_def, Node.ofChildren.eq_def, Node.shift, Child.shiftAll_eq_map]
  congr 1
  cases children with
  | nil => rfl
  | cons first more =>
      simp only [List.map_cons, List.foldl_map, Child.span_shift]
      generalize first.span = start
      induction more generalizing start with
      | nil => rfl
      | cons child more ih => simp only [List.foldl_cons, Span.cover_shift, ih]

def LexicalError.shift (k : Nat) (e : LexicalError) : LexicalError :=
  { e with span := e.span.shift k }

def SyntaxError.shift (k : Nat) (e : SyntaxError) : SyntaxError :=
  { e with found := e.found.shift k }

def ParseError.shift (k : Nat) : ParseError → ParseError
  | lexical e => lexical (e.shift k)
  | syntactic e => syntactic (e.shift k)

@[simp] theorem ParseError.span_shift (k : Nat) (e : ParseError) :
    (e.shift k).span = e.span.shift k := by
  cases e <;> rfl

end UmkaSyntax
