import UmkaSyntax.Proofs.Parsing.Conservation

namespace UmkaSyntax

inductive Node.Within : Node → Node → Prop
  | self (n : Node) : Within n n
  | child {m c n : Node} : .node c ∈ n.children → Within m c → Within m n

/-- Every node has children, and its span covers them. -/
inductive Node.Full : Node → Prop
  | mk (kind : NodeKind) (first : Child) (more : List Child) (fields : List Field) (offset : Nat) :
      (∀ n, .node n ∈ first :: more → n.Full) →
        Full (Node.ofChildren kind (first :: more) fields offset)

def Child.Full (c : Child) : Prop := ∀ n, c = .node n → n.Full

theorem Node.Full.within {m n : Node} (full : n.Full) (within : m.Within n) : m.Full := by
  induction within with
  | self => exact full
  | child mem _ ih =>
      cases full with
      | mk kind first more fields offset children => exact ih (children _ mem)

theorem Child.tokensOf_of_mem {c : Child} {children : List Child} (mem : c ∈ children) :
    ∃ before after, Child.tokensOf children = before ++ c.tokens ++ after := by
  obtain ⟨left, right, rfl⟩ := List.append_of_mem mem
  exact ⟨Child.tokensOf left, Child.tokensOf right, by simp [Child.tokensOf, List.append_assoc]⟩

theorem Node.tokens_eq (n : Node) : n.tokens = Child.tokensOf n.children := by
  cases n
  rw [Node.tokens]

theorem Node.Within.tokens {m n : Node} (within : m.Within n) :
    ∃ before after, n.tokens = before ++ m.tokens ++ after := by
  induction within with
  | self => exact ⟨[], [], by simp⟩
  | child mem _ ih =>
      obtain ⟨before, after, inner⟩ := ih
      obtain ⟨left, right, outer⟩ := Child.tokensOf_of_mem mem
      refine ⟨left ++ before, after ++ right, ?_⟩
      rw [Node.tokens_eq, outer, Child.tokens, inner]
      simp only [List.append_assoc]

def hull (tokens : List Token) : Span where
  start := (tokens.head?.map (·.span.start)).getD 0
  stop := (tokens.getLast?.map (·.span.stop)).getD 0

theorem hull_append {left right : List Token} (hl : left ≠ []) (hr : right ≠ []) :
    hull (left ++ right) = ⟨(hull left).start, (hull right).stop⟩ := by
  obtain ⟨t, left, rfl⟩ := List.exists_cons_of_ne_nil hl
  rcases List.eq_nil_or_concat right with rfl | ⟨right, u, rfl⟩
  · contradiction
  · have last : (t :: left ++ (right ++ [u])).getLast? = some u := by
      rw [← List.append_assoc, List.getLast?_concat]
    rw [List.concat_eq_append]
    simp only [hull, last]
    simp

def Child.Placed (c : Child) : Prop :=
  c.tokens ≠ [] ∧ ∀ start stop, Laid start (c.tokens.flatMap Token.stretches) stop →
    c.span = hull c.tokens ∧ start ≤ c.span.start ∧ c.span.start ≤ c.span.stop ∧
      c.span.stop ≤ stop

theorem Laid.le {start stop : Nat} {stretches : List Stretch} (laid : Laid start stretches stop) :
    start ≤ stop := by
  rw [laid.stop_eq]
  exact Nat.le_add_right _ _

theorem Child.placed_token (t : Token) : Child.Placed (.token t) := by
  refine ⟨by simp [Child.tokens], fun start stop laid => ?_⟩
  simp only [Child.tokens, List.flatMap_cons, List.flatMap_nil, List.append_nil,
    Token.stretches] at laid
  obtain ⟨middle, before, rest⟩ := laid_append.mp laid
  obtain ⟨own, after⟩ := laid_cons.mp rest
  have own : t.span = ⟨middle, middle + byteLength t.own.text⟩ := own
  refine ⟨by simp [Child.tokens, Child.span, hull], ?_⟩
  simp only [Child.span, own]
  exact ⟨before.le, Nat.le_add_right _ _, after.le⟩

theorem tokens_ordered {tokens : List Token} {start stop : Nat}
    (laid : Laid start (tokens.flatMap Token.stretches) stop) :
    (∀ t ∈ tokens, start ≤ t.span.start) ∧
      tokens.Pairwise fun t u => t.span.start ≤ t.span.stop ∧ t.span.stop ≤ u.span.start := by
  induction tokens generalizing start with
  | nil => simp
  | cons t tokens ih =>
      rw [List.flatMap_cons] at laid
      obtain ⟨middle, first, rest⟩ := laid_append.mp laid
      obtain ⟨-, after, inOrder, before⟩ := (Child.placed_token t).2 start middle (by
        simpa [Child.tokens] using first)
      obtain ⟨later, ordered⟩ := ih rest
      have behind : ∀ u ∈ tokens, t.span.start ≤ t.span.stop ∧ t.span.stop ≤ u.span.start :=
        fun u mem => ⟨inOrder, Nat.le_trans before (later u mem)⟩
      refine ⟨?_, List.pairwise_cons.mpr ⟨behind, ordered⟩⟩
      intro u mem
      obtain rfl | mem := List.mem_cons.mp mem
      · exact after
      · exact Nat.le_trans (Nat.le_trans after (behind u mem).1) (behind u mem).2

theorem cover_children {children : List Child} (placed : ∀ c ∈ children, c.Placed)
    {start stop : Nat} (laid : Laid start ((Child.tokensOf children).flatMap Token.stretches) stop)
    {tokens : List Token} (nonempty : tokens ≠ []) (ordered : (hull tokens).start ≤ (hull tokens).stop)
    (behind : (hull tokens).stop ≤ start) :
    children.foldl (fun span child => span.cover child.span) (hull tokens) =
        hull (tokens ++ Child.tokensOf children) ∧
      (hull tokens).stop ≤ (hull (tokens ++ Child.tokensOf children)).stop ∧
      (hull (tokens ++ Child.tokensOf children)).stop ≤ stop := by
  induction children generalizing start tokens with
  | nil =>
      simp only [Child.tokensOf, List.append_nil, List.foldl_nil]
      exact ⟨trivial, Nat.le_refl _, Nat.le_trans behind laid.le⟩
  | cons c children ih =>
      rw [Child.tokensOf, List.flatMap_append] at laid
      obtain ⟨middle, first, rest⟩ := laid_append.mp laid
      obtain ⟨some, lies⟩ := placed c (by simp)
      obtain ⟨span, after, inOrder, before⟩ := lies start middle first
      have widened := hull_append nonempty some
      have covered : (hull tokens).cover c.span = hull (tokens ++ c.tokens) := by
        rw [widened, ← span, Span.cover, Nat.min_eq_left (by omega), Nat.max_eq_right (by omega)]
      have stop_eq : (hull (tokens ++ c.tokens)).stop = c.span.stop := by rw [widened, ← span]
      have start_eq : (hull (tokens ++ c.tokens)).start = (hull tokens).start := by rw [widened]
      have filled : tokens ++ c.tokens ≠ [] := by simp [nonempty]
      have step := ih (fun d mem => placed d (by simp [mem])) rest filled (by omega) (by omega)
      rw [List.foldl_cons, covered, Child.tokensOf, ← List.append_assoc]
      exact ⟨step.1, by omega, step.2.2⟩

theorem Node.Full.placed {n : Node} (full : n.Full) : Child.Placed (.node n) := by
  induction full with
  | mk kind first more fields offset _ ih =>
      have placed : ∀ c ∈ first :: more, c.Placed := by
        intro c mem
        cases c with
        | token t => exact Child.placed_token t
        | node m => exact ih m mem
      obtain ⟨some, lies⟩ := placed first (by simp)
      refine ⟨by simp [Child.tokens, Child.tokensOf, some], fun start stop laid => ?_⟩
      simp only [Child.tokens, Node.tokens_ofChildren, Child.tokensOf, List.flatMap_append] at laid ⊢
      obtain ⟨middle, before, rest⟩ := laid_append.mp laid
      obtain ⟨span, after, inOrder, within⟩ := lies start middle before
      obtain ⟨covered, grows, fits⟩ := cover_children (fun c mem => placed c (by simp [mem])) rest
        some (by rw [← span]; exact inOrder) (by rw [← span]; exact within)
      have whole : Child.span (.node (Node.ofChildren kind (first :: more) fields offset)) =
          hull (first.tokens ++ Child.tokensOf more) := by
        rw [← covered, ← span]
        rfl
      have begins : (hull (first.tokens ++ Child.tokensOf more)).start = first.span.start := by
        rw [span]
        obtain ⟨t, tokens, eq⟩ := List.exists_cons_of_ne_nil some
        simp [eq, hull]
      rw [whole]
      refine ⟨rfl, by omega, ?_, fits⟩
      rw [begins]
      rw [← span] at grows
      omega

def innerStretches (t : Token) : List Token → List Stretch
  | [] => [t.own]
  | next :: more =>
      t.own :: t.trailing.map Trivia.stretch ++ next.leading.map Trivia.stretch ++
        innerStretches next more

theorem spelled_flatMap_trivia (trivia : List Trivia) :
    spelled (trivia.map Trivia.stretch) = trivia.flatMap fun t => t.text.toList := by
  rw [spelled, List.flatMap_map]
  rfl

theorem toList_textAfter (t : Token) (more : List Token) :
    (t.text ++ Node.textAfter t more).toList = spelled (innerStretches t more) := by
  induction more generalizing t with
  | nil => simp [Node.textAfter, innerStretches, Token.own]
  | cons next more ih =>
      have rest := ih next
      simp only [String.toList_append] at rest
      simp [Node.textAfter, innerStretches, Token.own, rest, spelled_flatMap_trivia, List.flatMap_map]

theorem flatMap_stretches_eq (t : Token) (more : List Token) :
    ∃ last ∈ (t :: more).getLast?, (t :: more).flatMap Token.stretches =
      t.leading.map Trivia.stretch ++ innerStretches t more ++
        last.trailing.map Trivia.stretch := by
  induction more generalizing t with
  | nil => exact ⟨t, by simp, by simp [innerStretches, Token.stretches]⟩
  | cons next more ih =>
      obtain ⟨last, mem, eq⟩ := ih next
      refine ⟨last, by simpa using mem, ?_⟩
      rw [List.flatMap_cons, eq]
      simp [innerStretches, Token.stretches, List.append_assoc]

theorem innerStretches_laid {start stop : Nat} {t last : Token} {more : List Token}
    (isLast : last ∈ (t :: more).getLast?) (laid : Laid start (innerStretches t more) stop) :
    start = t.span.start ∧ stop = last.span.stop := by
  induction more generalizing start t with
  | nil =>
      obtain rfl : t = last := by simpa using isLast
      obtain ⟨own, rfl⟩ := laid_cons.mp laid
      have own : t.span = ⟨start, start + byteLength t.own.text⟩ := own
      simp [own]
  | cons next more ih =>
      rw [innerStretches, List.cons_append, List.cons_append] at laid
      obtain ⟨own, rest⟩ := laid_cons.mp laid
      have own : t.span = ⟨start, start + byteLength t.own.text⟩ := own
      obtain ⟨_, _, inner⟩ := laid_append.mp rest
      exact ⟨by simp [own], (ih (by simpa using isLast) inner).2⟩

/-- Tokens that are part of a covered text read, without their outer trivia, like the text between
their ends. -/
theorem hull_reads {stop : Nat} {before after more : List Token} {t : Token}
    (laid : Laid 0 ((before ++ t :: more ++ after).flatMap Token.stretches) stop) :
    ∃ left right, spelled ((before ++ t :: more ++ after).flatMap Token.stretches) =
        left ++ (t.text ++ Node.textAfter t more).toList ++ right ∧
      hull (t :: more) = ⟨byteLength left,
        byteLength left + byteLength (t.text ++ Node.textAfter t more).toList⟩ := by
  obtain ⟨last, isLast, eq⟩ := flatMap_stretches_eq t more
  let left := before.flatMap Token.stretches ++ t.leading.map Trivia.stretch
  let right := last.trailing.map Trivia.stretch ++ after.flatMap Token.stretches
  have whole : (before ++ t :: more ++ after).flatMap Token.stretches =
      left ++ innerStretches t more ++ right := by
    rw [List.flatMap_append, List.flatMap_append, eq]
    simp only [left, right, List.append_assoc]
  rw [whole] at laid ⊢
  refine ⟨spelled left, spelled right, by rw [toList_textAfter, spelled_append, spelled_append], ?_⟩
  obtain ⟨begins, ends⟩ := innerStretches_laid isLast laid.part
  rw [toList_textAfter, begins, hull]
  rw [begins] at ends
  simp [show (t :: more).getLast? = some last from isLast, ← ends]

end UmkaSyntax
