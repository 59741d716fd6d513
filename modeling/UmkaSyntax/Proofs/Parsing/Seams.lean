import UmkaSyntax.Proofs.Parsing.Kinds
import UmkaSyntax.Proofs.Parsing.Lockstep
import UmkaSyntax.Proofs.Parsing.Yield
import UmkaSyntax.Proofs.Tree.Nodes
import UmkaSyntax.Proofs.Tree.Seats

/-!
Runs of terminators while a tree is built. A run is taken as a whole wherever it is taken, so between
the tree so far and the tokens ahead it is cut only where a list of parameters has taken newlines in
front of a semicolon. Such a list cannot be finished.
-/

namespace UmkaSyntax

namespace OpenNode

def seats (n : OpenNode) : List Seat :=
  Child.seatsOf (n.kind == .parameterList) false n.children.toList

theorem seats_toNode (n : OpenNode) : n.toNode.seats = n.seats := by
  rw [Node.seats_eq]
  rfl

theorem seats_add (c : Child) (n : OpenNode) :
    (n.add c).seats = n.seats ++
      c.seats (n.kind == .parameterList) (Child.endInToken false n.children.toList) := by
  rw [seats, (kind_add c n).1, children_add, Array.toList_push, Child.seatsOf_append, seats,
    Child.seatsOf, Child.seatsOf, List.append_nil]

theorem seats_add_node (n : Node) (outer : OpenNode) :
    (outer.add (.node n)).seats = outer.seats ++ n.seats := by
  rw [seats_add, Child.seats]

end OpenNode

namespace Builder

def seatsOf : List OpenNode → List Seat
  | [] => []
  | n :: below => seatsOf below ++ n.seats

def seats (b : Builder) : List Seat := seatsOf (b.top :: b.below)

variable {b c : Builder}

theorem seats_of_same (below : c.below = b.below)
    (kind : (c.top.kind == .parameterList) = (b.top.kind == .parameterList))
    (children : c.top.children = b.top.children) : c.seats = b.seats := by
  simp only [seats, seatsOf, below, OpenNode.seats, kind, children]

theorem seats_of_grown (below : c.below = b.below) (kind : c.top.kind = b.top.kind)
    {new : List Child} (children : c.top.children.toList = b.top.children.toList ++ new) :
    c.seats = b.seats ++ Child.seatsOf (b.top.kind == .parameterList)
      (Child.endInToken false b.top.children.toList) new := by
  simp only [seats, seatsOf, below, OpenNode.seats, kind, children, Child.seatsOf_append,
    List.append_assoc]

theorem seats_add (child : Child) (b : Builder) :
    (b.add child).seats = b.seats ++ child.seats (b.top.kind == .parameterList)
      (Child.endInToken false b.top.children.toList) := by
  simp only [seats, seatsOf, add, mapTop, OpenNode.seats_add, List.append_assoc]

theorem seats_startNode (kind : NodeKind) (offset : Nat) (b : Builder) :
    (b.startNode kind offset).seats = b.seats := by
  simp [startNode, seats, seatsOf, OpenNode.seats, OpenNode.empty, Child.seatsOf]

theorem seats_startAroundLast {init : List Child} {n : Node}
    (last : b.top.children.toList = init ++ [.node n]) (kind : NodeKind) (offset : Nat) :
    (b.startAroundLast kind offset).seats = b.seats := by
  have size : b.top.children.size = init.length + 1 := by
    rw [← Array.length_toList, last]
    simp
  have outer : (b.top.split (b.top.children.size - 1) kind offset).1.children.toList = init := by
    simp only [OpenNode.split, Array.toList_extract, List.extract_eq_take_drop, last, size]
    simp
  have inner : (b.top.split (b.top.children.size - 1) kind offset).2.children.toList = [.node n] := by
    simp only [OpenNode.split, Array.toList_extract, List.extract_eq_take_drop, last, size]
    simp
  have kept : (b.top.split (b.top.children.size - 1) kind offset).1.kind = b.top.kind := rfl
  simp only [startAroundLast, seats, seatsOf, OpenNode.seats, outer, inner, kept, last,
    Child.seatsOf_append, Child.seatsOf, Child.seats, List.append_nil, List.append_assoc]

theorem seats_close (b : Builder) : b.close.seats = b.seats := by
  unfold close
  split
  · rfl
  · rename_i outer below eq
    simp only [seats, eq, seatsOf, OpenNode.seats_add_node, OpenNode.seats_toNode, List.append_assoc]

theorem seats_closeDown (depth : Nat) (top : OpenNode) (below : List OpenNode) :
    (closeDown depth top below).seats = seatsOf (top :: below) := by
  fun_induction closeDown depth top below with
  | case1 top => rfl
  | case2 top outer below fits => rfl
  | case3 top outer below goes empty ih =>
      have nothing : top.seats = [] := by
        simp only [OpenNode.seats, Array.isEmpty_iff.mp empty]
        rfl
      rw [ih, seatsOf, seatsOf, seatsOf, nothing, List.append_nil]
  | case4 top outer below goes filled ih =>
      simp only [ih, seatsOf, OpenNode.seats_add_node, OpenNode.seats_toNode, List.append_assoc]

theorem seats_closeTo (depth : Nat) (b : Builder) : (b.closeTo depth).seats = b.seats :=
  seats_closeDown depth b.top b.below

theorem addTokens_grown (tokens : List Token) (b : Builder) :
    (b.addTokens tokens).below = b.below ∧ (b.addTokens tokens).top.kind = b.top.kind ∧
      (b.addTokens tokens).top.children.toList = b.top.children.toList ++ tokens.map .token := by
  induction tokens generalizing b with
  | nil => simp [addTokens]
  | cons t tokens ih =>
      obtain ⟨below, kind, children⟩ := ih (b.add (.token t))
      refine ⟨below, kind.trans (OpenNode.kind_add _ _).1, children.trans ?_⟩
      simp [add, mapTop]

end Builder

namespace State

def seats (s : State) : List Seat := s.builder.seats

/-- In the tree so far terminators that follow one another are siblings, but where an error was found
also those that a list of parameters left behind. -/
structure Quiet (s : State) : Prop where
  chain : s.seats.IsChain (Seat.Meets s.Faulty)
  seam : ∀ x ∈ s.seats.getLast?, ∀ t ∈ s.rest.head?, x.Runs t → x.Leaves t

def Tight (s : State) : Prop := ∀ x ∈ s.seats.getLast?, ∀ t ∈ s.rest.head?, x.Runs t → s.Faulty

/-- No run of terminators is cut between the tree and the tokens ahead. -/
def Settled (s : State) : Prop := ∀ x ∈ s.seats.getLast?, ∀ t ∈ s.rest.head?, ¬x.Runs t

variable {s t : State}

theorem Settled.tight (settled : s.Settled) : s.Tight :=
  fun x last t head runs => (settled x last t head runs).elim

theorem Settled.of_head (other : ∀ t ∈ s.rest.head?, t.kind.isTerminator = false) : s.Settled :=
  fun _ _ t head runs => absurd runs.2 (by simp [other t head])

theorem Settled.of_last (other : ∀ x ∈ s.seats.getLast?, x.token.kind.isTerminator = false) :
    s.Settled :=
  fun x last _ _ runs => absurd runs.1 (by simp [other x last])

theorem Quiet.same (quiet : s.Quiet) (faults : s.Faulty → t.Faulty) (seats : t.seats = s.seats)
    (rest : t.rest = s.rest) : t.Quiet :=
  ⟨by rw [seats]; exact quiet.chain.imp fun _ _ meets => meets.mono faults,
    by rw [seats, rest]; exact quiet.seam⟩

theorem Tight.same (tight : s.Tight) (faults : s.Faulty → t.Faulty) (seats : t.seats = s.seats)
    (rest : t.rest = s.rest) : t.Tight := by
  rw [Tight, seats, rest]
  exact fun x last u head runs => faults (tight x last u head runs)

theorem Quiet.grow (quiet : s.Quiet) (faults : s.Faulty → t.Faulty) {new : List Seat}
    (seats : t.seats = s.seats ++ new) (own : new.IsChain (Seat.Meets t.Faulty))
    (link : ∀ x ∈ s.seats.getLast?, ∀ y ∈ new.head?, x.Meets t.Faulty y)
    (seam : ∀ x ∈ t.seats.getLast?, ∀ u ∈ t.rest.head?, x.Runs u → x.Leaves u) : t.Quiet := by
  refine ⟨?_, seam⟩
  rw [seats]
  exact (quiet.chain.imp fun _ _ meets => meets.mono faults).append own link

theorem Quiet.grow_none (quiet : s.Quiet) (faults : s.Faulty → t.Faulty) {new : List Seat}
    (seats : t.seats = s.seats ++ new) (filled : new ≠ [])
    (none : ∀ x ∈ new, x.token.kind.isTerminator = false) : t.Quiet ∧ t.Settled := by
  have settled : t.Settled := by
    refine .of_last fun x last => none x ?_
    rw [seats, List.getLast?_append_of_ne_nil _ filled] at last
    exact List.mem_of_getLast? last
  refine ⟨quiet.grow faults seats (Seat.isChain_of_none none) (fun x _ y head => ?_)
    fun x last u head runs => (settled x last u head runs).elim, settled⟩
  exact Seat.meets_of_not_right (none y (List.mem_of_head? head))

theorem takeAs_quiet {f : Token → Token} (quiet : s.Quiet) (faults : s.Faulty → (s.takeAs f).Faulty)
    (other : ∀ t ∈ s.rest.head?, (f t).kind.isTerminator = false) :
    (s.takeAs f).Quiet ∧ (s.takeAs f).Settled := by
  cases ahead : s.rest with
  | nil =>
      have same : s.takeAs f = s := by rw [takeAs, ahead]
      rw [same]
      exact ⟨quiet, .of_head (by simp [ahead])⟩
  | cons t rest =>
      have seats : (s.takeAs f).seats = s.seats ++ [⟨f t, s.builder.top.kind == .parameterList,
          Child.endInToken false s.builder.top.children.toList⟩] := by
        rw [takeAs, ahead]
        exact Builder.seats_add (.token (f t)) s.builder
      refine quiet.grow_none faults seats (List.cons_ne_nil _ _) fun x mem => ?_
      obtain rfl := List.mem_singleton.mp mem
      exact other t (by rw [ahead]; rfl)

theorem seats_literal (kind : NodeKind) (flavor : Flavor) (t : Token) (offset : Nat) :
    let n := (LiteralParts.ofToken flavor t).toNode kind offset
    n.seats ≠ [] ∧ ∀ x ∈ n.seats, x.token.kind.isTerminator = false := by
  intro n
  have tokens : n.seats.map (·.token) = (LiteralParts.ofToken flavor t).tokens := by
    rw [Node.map_seats, LiteralParts.tokens_toNode]
  have kinds : ∀ kind ∈ [TokenKind.quote, .literalText, .escape, .format, .name, .moduleSuffix],
      kind.isTerminator = false := by
    decide
  refine ⟨fun none => (Rendered.literal flavor t).ne_nil ?_, fun x mem => ?_⟩
  · rw [← tokens, none, List.map_nil]
  · have own : x.token ∈ (LiteralParts.ofToken flavor t).tokens := by
      rw [← tokens]
      exact List.mem_map_of_mem mem
    exact kinds _ (LiteralParts.kind_of_mem_tokens own)

theorem takeLiteral_quiet (kind : NodeKind) (flavor : Flavor) (quiet : s.Quiet) :
    (s.takeLiteral kind flavor).Quiet ∧ (s.takeLiteral kind flavor).Settled := by
  have faults : s.Faulty → (s.takeLiteral kind flavor).Faulty := fun faulty =>
    faulty.mono (Step.takeLiteral s kind flavor).steps
  cases ahead : s.rest with
  | nil =>
      have same : s.takeLiteral kind flavor = s := by rw [takeLiteral, ahead]
      rw [same]
      exact ⟨quiet, .of_head (by simp [ahead])⟩
  | cons t rest =>
      obtain ⟨filled, none⟩ := seats_literal kind flavor t t.span.start
      refine quiet.grow_none faults ?_ filled none
      rw [takeLiteral, ahead]
      refine (Builder.seats_add (.node _) s.builder).trans ?_
      rw [Child.seats]
      rfl

theorem exists_takeWhile {look : Look} {all : Bool} (lines : look.terminators? = some all) (s : State) :
    ∃ taken rest, s.rest = taken ++ rest ∧ (∀ t ∈ taken, t.endsLine all = true) ∧
      (∀ t ∈ rest.head?, t.endsLine all = false) ∧ (s.takeWhile look).rest = rest ∧
      (s.takeWhile look).seats = s.seats ++ Child.seatsOf (s.builder.top.kind == .parameterList)
        (Child.endInToken false s.builder.top.children.toList) (taken.map .token) := by
  obtain ⟨taken, rest, ahead, takes, stops⟩ := exists_run (Token.endsLine all) s.rest
  have eq := takeWhile_eq lines ahead takes stops
  obtain ⟨below, kind, children⟩ := Builder.addTokens_grown taken s.builder
  refine ⟨taken, rest, ahead, takes, stops, by rw [eq], ?_⟩
  rw [eq]
  exact Builder.seats_of_grown below kind children

theorem head_tokens {listed joined : Bool} {taken rest : List Token} {y : Seat}
    (ahead : s.rest = taken ++ rest)
    (head : y ∈ (Child.seatsOf listed joined (taken.map .token)).head?) : y.token ∈ s.rest.head? := by
  cases taken with
  | nil => cases head
  | cons t taken =>
      cases head
      rw [ahead]
      rfl

theorem head_takeWhile {look : Look} (lines : look.terminators? = some true) (s : State) :
    ∀ t ∈ (s.takeWhile look).rest.head?, t.kind.isTerminator = false := by
  obtain ⟨-, rest, -, -, stops, behind, -⟩ := exists_takeWhile lines s
  intro t head
  rw [behind] at head
  simpa [Token.endsLine, TokenKind.isTerminator, and_comm] using stops t head

theorem takeWhile_quiet {look : Look} (lines : look.terminators? = some true) (quiet : s.Quiet)
    (tight : s.Tight) : (s.takeWhile look).Quiet ∧ (s.takeWhile look).Settled := by
  have faults : s.Faulty → (s.takeWhile look).Faulty := fun faulty =>
    faulty.mono (takeWhile_steps look s)
  obtain ⟨taken, rest, ahead, -, -, -, seats⟩ := exists_takeWhile lines s
  have settled : (s.takeWhile look).Settled := .of_head (head_takeWhile lines s)
  refine ⟨quiet.grow faults seats (Seat.isChain_tokens taken) (fun x last y head runs => .inr ?_)
    fun x last u head runs => (settled x last u head runs).elim, settled⟩
  have next := head_tokens ahead head
  exact ⟨faults (tight x last _ next runs), quiet.seam x last _ next runs⟩

theorem takeNewlines_quiet {look : Look} (lines : look.terminators? = some false)
    (listed : (s.builder.top.kind == .parameterList) = true) (quiet : s.Quiet) :
    (s.takeWhile look).Quiet := by
  obtain ⟨taken, rest, ahead, takes, stops, behind, seats⟩ := exists_takeWhile lines s
  rw [listed] at seats
  have newline : ∀ t : Token, t.endsLine false = true → t.kind = .newline := by simp [Token.endsLine]
  refine quiet.grow (fun faulty => faulty.mono (takeWhile_steps look s)) seats
    (Seat.isChain_tokens taken) (fun x last y head runs => ?_) fun x last u head runs => ?_
  · have own := (Seat.of_mem_tokens (List.mem_of_head? head)).2
    have leaves := quiet.seam x last _ (head_tokens ahead head) runs
    exact absurd leaves.2.2 (by simp [newline _ (takes _ own)])
  · rw [behind] at head
    cases taken with
    | nil =>
        rw [seats] at last
        refine quiet.seam x (by simpa [Child.seatsOf] using last) u ?_ runs
        rw [ahead]
        exact head
    | cons t taken =>
        have filled : Child.seatsOf true (Child.endInToken false s.builder.top.children.toList)
            ((t :: taken).map .token) ≠ [] := List.cons_ne_nil _ _
        rw [seats, List.getLast?_append_of_ne_nil _ filled] at last
        obtain ⟨own, mem⟩ := Seat.of_mem_tokens (List.mem_of_getLast? last)
        refine ⟨own, newline _ (takes _ mem), ?_⟩
        have other : u.kind ≠ .newline := by simpa [Token.endsLine] using stops u head
        simpa [TokenKind.isTerminator, other] using runs.2

theorem salvage_cases (t : Token) : (salvage t).1 = .token t ∨
    ∃ n, (salvage t).1 = .node n ∧ n.seats ≠ [] ∧ ∀ x ∈ n.seats, x.token.kind.isTerminator = false := by
  unfold salvage
  split
  · exact .inr ⟨_, rfl, seats_literal _ _ t _⟩
  · exact .inr ⟨_, rfl, seats_literal _ _ t _⟩
  · exact .inl rfl

theorem seats_salvage_ne_nil (listed joined : Bool) (t : Token) :
    (salvage t).1.seats listed joined ≠ [] := by
  obtain eq | ⟨n, eq, filled, -⟩ := salvage_cases t
  · rw [eq, Child.seats]
    exact List.cons_ne_nil _ _
  · rwa [eq, Child.seats]

theorem eq_of_mem_salvage {listed joined : Bool} {t : Token} {x : Seat}
    (mem : x ∈ (salvage t).1.seats listed joined) (terminates : x.token.kind.isTerminator = true) :
    (salvage t).1 = .token t ∧ x = ⟨t, listed, joined⟩ := by
  obtain eq | ⟨n, eq, -, none⟩ := salvage_cases t
  · rw [eq, Child.seats] at mem
    exact ⟨eq, List.mem_singleton.mp mem⟩
  · rw [eq, Child.seats] at mem
    simp [none x mem] at terminates

def seatsOfSkipped (joined : Bool) (tokens : List Token) : List Seat :=
  Child.seatsOf false joined (tokens.map fun t => (salvage t).1)

theorem isChain_skipped {broken : Prop} (joined : Bool) (tokens : List Token) :
    (seatsOfSkipped joined tokens).IsChain (Seat.Meets broken) := by
  induction tokens generalizing joined with
  | nil => exact List.isChain_nil
  | cons t tokens ih =>
      rw [seatsOfSkipped, List.map_cons, Child.seatsOf]
      refine List.IsChain.append ?_ (ih _) fun x last y head runs => .inl ?_
      · obtain eq | ⟨n, eq, -, none⟩ := salvage_cases t
        · rw [eq, Child.seats]
          exact List.isChain_singleton _
        · rw [eq, Child.seats]
          exact Seat.isChain_of_none none
      · obtain ⟨kept, -⟩ := eq_of_mem_salvage (List.mem_of_getLast? last) runs.1
        cases tokens with
        | nil => cases head
        | cons u tokens =>
            rw [List.map_cons, Child.seatsOf, List.head?_append_of_ne_nil _ (seats_salvage_ne_nil _ _ u)]
              at head
            obtain ⟨-, rfl⟩ := eq_of_mem_salvage (List.mem_of_head? head) runs.2
            rw [kept]
            rfl

theorem head_skipped {joined : Bool} {tokens : List Token} {y : Seat}
    (head : y ∈ (seatsOfSkipped joined tokens).head?) (terminates : y.token.kind.isTerminator = true) :
    y.token ∈ tokens.head? := by
  cases tokens with
  | nil => cases head
  | cons t tokens =>
      rw [seatsOfSkipped, List.map_cons, Child.seatsOf,
        List.head?_append_of_ne_nil _ (seats_salvage_ne_nil _ _ t)] at head
      obtain ⟨-, rfl⟩ := eq_of_mem_salvage (List.mem_of_head? head) terminates
      rfl

theorem last_skipped {joined : Bool} {tokens : List Token} {x : Seat}
    (last : x ∈ (seatsOfSkipped joined tokens).getLast?)
    (terminates : x.token.kind.isTerminator = true) : x.token ∈ tokens.getLast? := by
  obtain rfl | ⟨init, t, rfl⟩ := List.eq_nil_or_concat' tokens
  · cases last
  · rw [seatsOfSkipped, List.map_append, Child.seatsOf_append, List.map_singleton, Child.seatsOf,
      Child.seatsOf, List.append_nil,
      List.getLast?_append_of_ne_nil _ (seats_salvage_ne_nil _ _ t)] at last
    obtain ⟨-, rfl⟩ := eq_of_mem_salvage (List.mem_of_getLast? last) terminates
    rw [List.getLast?_concat]
    rfl

theorem skipLength_apart {stop : Look} (covers : ∀ t more, t.kind.isTerminator = true →
      stop.holds (t :: more) = true) (depth : Nat) (tokens : List Token) :
    ∀ t ∈ (tokens.take (skipLength stop depth tokens)).getLast?,
      ∀ u ∈ (tokens.drop (skipLength stop depth tokens)).head?,
        t.kind.isTerminator = true → u.kind.isTerminator = false := by
  -- the last of the tokens is the first one, or the last of the others
  have step : ∀ {t : Token} {more : List Token} {count : Nat},
      (count = 0 → more ≠ [] → t.kind.isTerminator = false) →
      (∀ t ∈ (more.take count).getLast?, ∀ u ∈ (more.drop count).head?,
        t.kind.isTerminator = true → u.kind.isTerminator = false) →
      ∀ v ∈ ((t :: more).take (count + 1)).getLast?, ∀ u ∈ ((t :: more).drop (count + 1)).head?,
        v.kind.isTerminator = true → u.kind.isTerminator = false := by
    intro t more count first others v last u head terminates
    rw [List.take_succ_cons] at last
    rw [List.drop_succ_cons] at head
    cases front : more.take count with
    | nil =>
        rw [front] at last
        obtain rfl : t = v := by simpa using last
        obtain none | none := List.take_eq_nil_iff.mp front
        · have some : more ≠ [] := by
            rintro rfl
            simp at head
          simp [first none some] at terminates
        · rw [none] at head
          simp at head
    | cons w front =>
        rw [front, List.getLast?_cons_cons] at last
        exact others v (by rw [front]; exact last) u head terminates
  fun_induction skipLength stop depth tokens with
  | case1 => simp
  | case2 t more stops => simp
  | case3 t more goes ih =>
      refine step (fun _ _ => ?_) ih
      by_contra terminates
      exact goes (covers t more (by simpa using terminates))
  | case4 depth t more inside ih =>
      refine step (fun none some => ?_) ih
      -- only a bracket leads back to where skipping may stop
      obtain ⟨u, rest, rfl⟩ := List.exists_cons_of_ne_nil some
      by_contra terminates
      have other : opens t = false ∧ closes t = false := by
        unfold opens closes
        revert terminates
        cases t.kind <;> simp [TokenKind.isTerminator]
      simp only [inside, other] at none
      simp [skipLength] at none

theorem covers_terminators (sync : SyncSet) (t : Token) (more : List Token)
    (terminates : t.kind.isTerminator = true) : sync.look.holds (t :: more) = true :=
  Look.holds_of_covers
    (sync.look_covers_terminator (TokenKind.role_eq_terminator.mpr terminates)) more

theorem discard_quiet (count : Nat) (quiet : s.Quiet) (tight : s.Tight)
    (apart : ∀ t ∈ (s.rest.take count).getLast?, ∀ u ∈ (s.rest.drop count).head?,
      t.kind.isTerminator = true → u.kind.isTerminator = false) :
    (s.discard count).Quiet ∧ (s.discard count).Tight := by
  cases front : s.rest.take count with
  | nil =>
      have same : s.discard count = s := by simp [discard, front]
      rw [same]
      exact ⟨quiet, tight⟩
  | cons t tokens =>
      have faults : s.Faulty → (s.discard count).Faulty := fun faulty =>
        faulty.mono (Step.discard s count).steps
      have seats : (s.discard count).seats = s.seats ++ seatsOfSkipped false (t :: tokens) := by
        unfold discard
        rw [front]
        refine (Builder.seats_add (.node _) s.builder).trans ?_
        rw [Child.seats, Node.seats_eq, seatsOfSkipped]
        simp only [Node.ofChildren, List.map_map]
        rfl
      have filled : seatsOfSkipped false (t :: tokens) ≠ [] := by
        rw [seatsOfSkipped, List.map_cons, Child.seatsOf]
        exact List.append_ne_nil_of_left_ne_nil (seats_salvage_ne_nil _ _ t) _
      have settled : (s.discard count).Settled := by
        intro x last u head runs
        rw [seats, List.getLast?_append_of_ne_nil _ filled] at last
        rw [rest_discard] at head
        have own := last_skipped last runs.1
        rw [← front] at own
        exact absurd runs.2 (by simp [apart _ own u head runs.1])
      refine ⟨quiet.grow faults seats (isChain_skipped false _) (fun x last y head runs => .inr ?_)
        fun x last u head runs => (settled x last u head runs).elim, settled.tight⟩
      have next : y.token ∈ s.rest.head? := by
        have own := head_skipped head runs.2
        rw [← front] at own
        cases count with
        | zero => simp at own
        | succ count => simpa [List.head?_take] using own
      exact ⟨faults (tight x last _ next runs), quiet.seam x last _ next runs⟩

theorem recover_quiet (quiet : s.Quiet) (e : SyntaxError) (depth : Nat) (sync : SyncSet) :
    (s.recover e depth sync).Quiet ∧ (s.recover e depth sync).Tight := by
  have faulty : ((s.record (.syntactic e)).onBuilder (Builder.closeTo depth)).Faulty :=
    ⟨e, by simp [onBuilder, record]⟩
  have closed : ((s.record (.syntactic e)).onBuilder (Builder.closeTo depth)).Quiet :=
    quiet.same (fun _ => faulty) (Builder.seats_closeTo depth s.builder) rfl
  have skipped := discard_quiet (skipLength sync.look 0 s.rest) closed (fun _ _ _ _ _ => faulty)
    (skipLength_apart (covers_terminators sync) 0 s.rest)
  simp only [recover]
  split
  · exact skipped
  · exact ⟨skipped.1.same (·) rfl rfl, skipped.2.same (·) rfl rfl⟩

end State

end UmkaSyntax
