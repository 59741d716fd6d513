import Mathlib.Data.List.Chain
import UmkaSyntax.Proofs.Tree.Extent

namespace UmkaSyntax

/-- A token of a tree and its place among the children of its node. -/
structure Seat where
  token : Token
  listed : Bool
  joined : Bool

def Child.isToken (c : Child) : Bool := c.token?.isSome

def Child.endInToken (known : Bool) (children : List Child) : Bool :=
  (children.getLast?.map Child.isToken).getD known

mutual

def Node.seats : Node → List Seat
  | ⟨kind, _, children, _⟩ => Child.seatsOf (kind == .parameterList) false children

def Child.seats (listed joined : Bool) : Child → List Seat
  | .token t => [⟨t, listed, joined⟩]
  | .node n => n.seats

def Child.seatsOf (listed joined : Bool) : List Child → List Seat
  | [] => []
  | child :: more => child.seats listed joined ++ Child.seatsOf listed child.isToken more

end

def Child.Seated (listed : Bool) (children : List Child) (run : List Seat) : Prop :=
  (∃ before after, children = before ++ run.map (fun x => .token x.token) ++ after) ∧
    ∀ x ∈ run, x.listed = listed

namespace Child

variable {listed joined : Bool}

theorem seatsOf_append (left right : List Child) :
    seatsOf listed joined (left ++ right) =
      seatsOf listed joined left ++ seatsOf listed (endInToken joined left) right := by
  induction left generalizing joined with
  | nil => rfl
  | cons child left ih =>
      have last : endInToken joined (child :: left) = endInToken child.isToken left := by
        cases left with
        | nil => rfl
        | cons next left => rfl
      rw [List.cons_append, seatsOf, seatsOf, ih, List.append_assoc, last]

end Child

theorem Node.seats_eq (n : Node) :
    n.seats = Child.seatsOf (n.kind == .parameterList) false n.children := by
  cases n
  rw [Node.seats]

mutual

theorem Node.map_seats : ∀ n : Node, n.seats.map (·.token) = n.tokens
  | ⟨kind, span, children, fields⟩ => by
      rw [Node.seats, Node.tokens, Child.map_seatsOf children]

theorem Child.map_seats {listed joined : Bool} :
    ∀ c : Child, (c.seats listed joined).map (·.token) = c.tokens
  | .token t => by rw [Child.seats, Child.tokens, List.map_singleton]
  | .node n => by rw [Child.seats, Child.tokens, Node.map_seats n]

theorem Child.map_seatsOf {listed joined : Bool} :
    ∀ children : List Child, (Child.seatsOf listed joined children).map (·.token) = Child.tokensOf children
  | [] => by rw [Child.seatsOf, Child.tokensOf, List.map_nil]
  | child :: more => by
      rw [Child.seatsOf, Child.tokensOf, List.map_append, Child.map_seats child,
        Child.map_seatsOf more]

end

mutual

theorem Node.not_joined_head : ∀ (n : Node), ∀ x ∈ n.seats.head?, x.joined = false
  | ⟨kind, span, children, fields⟩ => by
      rw [Node.seats]
      exact Child.not_joined_head children

theorem Child.not_joined_head {listed : Bool} :
    ∀ (children : List Child), ∀ x ∈ (Child.seatsOf listed false children).head?, x.joined = false
  | [] => by simp [Child.seatsOf]
  | .token t :: more => by simp [Child.seatsOf, Child.seats]
  | .node n :: more => by
      intro x head
      rw [Child.seatsOf, Child.seats, List.head?_append] at head
      cases first : n.seats.head? with
      | none =>
          rw [first] at head
          exact Child.not_joined_head more x head
      | some y =>
          rw [first] at head
          obtain rfl : y = x := by simpa using head
          exact Node.not_joined_head n y first

end

namespace Child

variable {listed joined : Bool} {child : Child} {children : List Child} {run : List Seat}

theorem eq_append_of_joined {front behind : List Seat}
    (eq : seatsOf listed joined children = front ++ behind) (all : ∀ x ∈ front, x.joined = true) :
    (∃ after, children = front.map (fun x => .token x.token) ++ after) ∧
      ∀ x ∈ front, x.listed = listed := by
  induction children generalizing joined front with
  | nil =>
      obtain ⟨rfl, -⟩ := List.append_eq_nil_iff.mp eq.symm
      exact ⟨⟨[], rfl⟩, by simp⟩
  | cons child children ih =>
      cases front with
      | nil => exact ⟨⟨child :: children, rfl⟩, by simp⟩
      | cons x front =>
          obtain ⟨first, others⟩ := List.forall_mem_cons.mp all
          cases child with
          | token t =>
              rw [seatsOf, seats, List.singleton_append, List.cons_append, List.cons.injEq] at eq
              obtain ⟨rfl, eq⟩ := eq
              obtain ⟨⟨after, rfl⟩, same⟩ := ih eq others
              exact ⟨⟨after, rfl⟩, List.forall_mem_cons.mpr ⟨rfl, same⟩⟩
          | node n =>
              have head : x ∈ (seatsOf listed false (.node n :: children)).head? := by
                rw [show seatsOf listed false (.node n :: children) =
                  seatsOf listed joined (.node n :: children) from rfl, eq]
                rfl
              rw [not_joined_head _ x head] at first
              cases first

theorem Seated.cons (seated : Seated listed children run) (child : Child) :
    Seated listed (child :: children) run := by
  obtain ⟨⟨before, after, rfl⟩, same⟩ := seated
  exact ⟨⟨child :: before, after, rfl⟩, same⟩

end Child

mutual

theorem Node.exists_seated : ∀ (n : Node) {before after more : List Seat} {first : Seat},
    n.seats = before ++ (first :: more ++ after) → (∀ x ∈ more, x.joined = true) →
      ∃ m : Node, m.Within n ∧
        Child.Seated (m.kind == .parameterList) m.children (first :: more)
  | ⟨kind, span, children, fields⟩, before, after, more, first, eq, all => by
      rw [Node.seats] at eq
      obtain seated | ⟨n, mem, m, within, seated⟩ := Child.exists_seated children eq all
      · exact ⟨_, .self _, seated⟩
      · exact ⟨m, .child mem within, seated⟩

theorem Child.exists_seated : ∀ (children : List Child) {listed joined : Bool}
    {before after more : List Seat} {first : Seat},
    Child.seatsOf listed joined children = before ++ (first :: more ++ after) →
      (∀ x ∈ more, x.joined = true) →
      Child.Seated listed children (first :: more) ∨
        ∃ n, .node n ∈ children ∧ ∃ m : Node, m.Within n ∧
          Child.Seated (m.kind == .parameterList) m.children (first :: more)
  | [], listed, joined, before, after, more, first, eq, all => by
      simp [Child.seatsOf] at eq
  | child :: children, listed, joined, before, after, more, first, eq, all => by
      have later : ∀ front : List Seat,
          Child.seatsOf listed child.isToken children = front ++ (first :: more ++ after) →
          Child.Seated listed (child :: children) (first :: more) ∨
            ∃ n, .node n ∈ child :: children ∧ ∃ m : Node, m.Within n ∧
              Child.Seated (m.kind == .parameterList) m.children (first :: more) := by
        intro front eq
        obtain seated | ⟨n, mem, inner⟩ := Child.exists_seated children eq all
        · exact .inl (seated.cons child)
        · exact .inr ⟨n, List.mem_cons_of_mem _ mem, inner⟩
      rw [Child.seatsOf] at eq
      obtain ⟨front, -, behind⟩ | ⟨inside, own, behind⟩ := List.append_eq_append_iff.mp eq
      · exact later front behind
      cases inside with
      | nil => exact later [] behind.symm
      | cons x inside =>
          rw [List.cons_append, List.cons_append, List.cons.injEq] at behind
          obtain ⟨rfl, behind⟩ := behind
          cases child with
          | token t =>
              -- the run begins at this token
              rw [Child.seats, eq_comm, List.append_eq_singleton_iff] at own
              obtain ⟨rfl, own⟩ | ⟨-, never⟩ := own
              · obtain ⟨rfl, rfl⟩ := List.cons.inj own
                obtain ⟨⟨rest, rfl⟩, same⟩ := Child.eq_append_of_joined behind.symm all
                exact .inl ⟨⟨[], rest, rfl⟩, List.forall_mem_cons.mpr ⟨rfl, same⟩⟩
              · cases never
          | node n =>
              -- it cannot end behind the node
              refine .inr ⟨n, List.mem_cons_self, ?_⟩
              rw [Child.seats] at own
              obtain ⟨rest, rfl, -⟩ | ⟨beyond, rfl, tail⟩ := List.append_eq_append_iff.mp behind
              · exact Node.exists_seated n own all
              · cases beyond with
                | nil =>
                    rw [List.append_nil] at all ⊢
                    rw [← List.append_nil (_ :: inside)] at own
                    exact Node.exists_seated n own all
                | cons y beyond =>
                    have head : y ∈ (Child.seatsOf listed false children).head? := by
                      rw [show Child.seatsOf listed false children = _ from tail]
                      rfl
                    have apart := Child.not_joined_head children y head
                    rw [all y (by simp)] at apart
                    cases apart

end

namespace Seat

def Runs (x : Seat) (t : Token) : Prop :=
  x.token.kind.isTerminator = true ∧ t.kind.isTerminator = true

/-- A list of parameters takes a newline and leaves the semicolon behind it. -/
def Leaves (x : Seat) (t : Token) : Prop :=
  x.listed = true ∧ x.token.kind = .newline ∧ t.kind = .semicolon

/-- Terminators that follow one another are siblings, but for what broken lists leave behind. -/
def Meets (broken : Prop) (x y : Seat) : Prop :=
  x.Runs y.token → y.joined = true ∨ broken ∧ x.Leaves y.token

variable {broken : Prop} {x y : Seat}

theorem Meets.mono {worse : Prop} (meets : x.Meets broken y) (le : broken → worse) :
    x.Meets worse y :=
  fun runs => (meets runs).imp_right fun leaves => ⟨le leaves.1, leaves.2⟩

theorem meets_of_not_left (other : x.token.kind.isTerminator = false) : x.Meets broken y :=
  fun runs => absurd runs.1 (by simp [other])

theorem meets_of_not_right (other : y.token.kind.isTerminator = false) : x.Meets broken y :=
  fun runs => absurd runs.2 (by simp [other])

theorem isChain_of_none {seats : List Seat} (none : ∀ x ∈ seats, x.token.kind.isTerminator = false) :
    seats.IsChain (Meets broken) := by
  induction seats with
  | nil => exact List.isChain_nil
  | cons x seats ih =>
      obtain ⟨first, others⟩ := List.forall_mem_cons.mp none
      exact List.isChain_cons.mpr ⟨fun y _ => meets_of_not_left first, ih others⟩

theorem isChain_tokens {listed joined : Bool} (tokens : List Token) :
    (Child.seatsOf listed joined (tokens.map .token)).IsChain (Meets broken) := by
  induction tokens generalizing joined with
  | nil => exact List.isChain_nil
  | cons t tokens ih =>
      rw [List.map_cons, Child.seatsOf, Child.seats, List.singleton_append]
      refine List.isChain_cons.mpr ⟨fun y head _ => .inl ?_, ih⟩
      cases tokens with
      | nil => cases head
      | cons u tokens =>
          cases head
          rfl

theorem of_mem_tokens {listed joined : Bool} {tokens : List Token}
    (mem : x ∈ Child.seatsOf listed joined (tokens.map .token)) :
    x.listed = listed ∧ x.token ∈ tokens := by
  induction tokens generalizing joined with
  | nil => cases mem
  | cons t tokens ih =>
      rw [List.map_cons, Child.seatsOf, Child.seats, List.singleton_append] at mem
      obtain rfl | mem := List.mem_cons.mp mem
      · exact ⟨rfl, List.mem_cons_self⟩
      · exact (ih mem).imp_right (List.mem_cons_of_mem t)

/-- In a run of terminators, either all tokens but the first are joined, or a broken list leaves the
first one that is not. -/
theorem joined_or_leaves {first : Seat} {more : List Seat}
    (chain : (first :: more).IsChain (Meets broken))
    (all : ∀ x ∈ first :: more, x.token.kind.isTerminator = true) :
    (∀ x ∈ more, x.joined = true) ∨ ∃ joined last next back,
      first :: more = joined ++ last :: next :: back ∧
        (∀ x ∈ (joined ++ [last]).tail, x.joined = true) ∧ broken ∧ last.Leaves next.token := by
  induction more generalizing first with
  | nil => exact .inl (by simp)
  | cons next more ih =>
      obtain ⟨meets, rest⟩ := List.isChain_cons_cons.mp chain
      obtain ⟨own, others⟩ := List.forall_mem_cons.mp all
      obtain isJoined | ⟨hb, leaves⟩ := meets ⟨own, others next List.mem_cons_self⟩
      · obtain each | ⟨joined, last, behind, back, eq, each, hb, leaves⟩ := ih rest others
        · exact .inl (List.forall_mem_cons.mpr ⟨isJoined, each⟩)
        · refine .inr ⟨first :: joined, last, behind, back, by rw [eq]; rfl, ?_, hb, leaves⟩
          cases joined with
          | nil =>
              obtain ⟨rfl, -⟩ := List.cons.inj eq
              exact List.forall_mem_cons.mpr ⟨isJoined, each⟩
          | cons x joined =>
              obtain ⟨rfl, -⟩ := List.cons.inj eq
              exact List.forall_mem_cons.mpr ⟨isJoined, each⟩
      · exact .inr ⟨[], first, next, more, rfl, by simp, hb, leaves⟩

end Seat

end UmkaSyntax
