import UmkaSyntax.Proofs.Parsing.Shape

namespace UmkaSyntax
open UmkaSyntax.Part

/-! ## Derivations in other places -/

theorem carefulAll_singleton {host : NodeKind} {depth : Nat} {part : Part} {next : TokenKind} :
    CarefulAll host depth [part] next ↔ Careful host depth part next := by
  constructor
  · intro careful
    exact careful [] part [] rfl
  · intro careful before other after eq
    cases before with
    | nil =>
        cases eq
        exact careful
    | cons _ before => simp at eq

theorem Careful.shallower {host : NodeKind} {depth deeper : Nat} {part : Part} {next : TokenKind}
    (careful : Careful host deeper part next) (le : depth ≤ deeper) : Careful host depth part next :=
  ⟨careful.opening, careful.typeName, careful.builtin, fun noName noCall category symbol mem fits =>
    Nat.lt_of_le_of_lt le (careful.shallow noName noCall category symbol mem fits)⟩

mutual

theorem Part.Licensed.shallower : ∀ {depth deeper : Nat} {part : Part} {next : TokenKind},
    Licensed Strict deeper part next → depth ≤ deeper → Licensed Strict depth part next
  | _, _, .node _ _ _ _, _, ⟨⟨shape, careful⟩, inner⟩, le =>
      ⟨⟨shape, fun before part after eq =>
        (careful before part after eq).shallower (Nat.succ_le_succ le)⟩,
        Part.LicensedAll.shallower inner (Nat.succ_le_succ le)⟩
  | _, _, .token _ _, _, _, _ | _, _, .keyword _ _, _, _, _ | _, _, .literal _ _ _, _, _, _ => trivial

theorem Part.LicensedAll.shallower : ∀ {depth deeper : Nat} {parts : List Part} {next : TokenKind},
    LicensedAll Strict deeper parts next → depth ≤ deeper → LicensedAll Strict depth parts next
  | _, _, [], _, _, _ => trivial
  | _, _, _ :: _, _, ⟨first, more⟩, le =>
      ⟨Part.Licensed.shallower first le, Part.LicensedAll.shallower more le⟩

end

theorem Part.plainName?_named (field : FieldName) (part : Part) :
    (part.named field).plainName? = part.plainName? := by
  cases part with
  | token | keyword | literal => rfl
  | node label kind whole parts =>
      cases kind with
      | qualifiedName => rcases parts with _ | ⟨_ | _ | _ | _, _ | _⟩ <;> rfl
      | _ => rfl

namespace Valid

variable {host : NodeKind} {depth deeper : Nat} {parts : List Part} {next : TokenKind}

theorem shallower (valid : Valid host deeper parts next) (le : depth ≤ deeper) :
    Valid host depth parts next :=
  ⟨valid.strict.shallower le, fun before part after eq =>
    (valid.careful before part after eq).shallower le⟩

theorem of_named {part : Part} {field : FieldName} (valid : Valid host depth [part.named field] next) :
    Valid host depth [part] next := by
  obtain ⟨⟨licensed, -⟩, careful⟩ := valid
  have careful := carefulAll_singleton.mp careful
  refine ⟨⟨licensed_named.mp licensed, trivial⟩, carefulAll_singleton.mpr ⟨?_, ?_, ?_, ?_⟩⟩
  · rintro label kind whole parts rfl
    exact careful.opening field kind whole parts rfl
  · exact plainName?_named field part ▸ careful.typeName
  · exact plainName?_named field part ▸ careful.builtin
  · exact fun noName noCall category symbol mem fits =>
      careful.shallow noName noCall category symbol mem (fits.named field)

end Valid

theorem Part.exists_named {part : Part} {field : FieldName} (label : part.label = some field) :
    ∃ plain : Part, plain.label = none ∧ plain.named field = part := by
  cases part with
  | token own t =>
      obtain rfl : own = some field := label
      exact ⟨.token none t, rfl, rfl⟩
  | keyword own t =>
      obtain rfl : own = some field := label
      exact ⟨.keyword none t, rfl, rfl⟩
  | literal own kind t =>
      obtain rfl : own = some field := label
      exact ⟨.literal none kind t, rfl, rfl⟩
  | node own kind whole parts =>
      obtain rfl : own = some field := label
      exact ⟨.node none kind whole parts, rfl, rfl⟩

theorem Symbol.Fits.of_named {symbol : Symbol} {part : Part} {field : FieldName}
    (fits : symbol.Fits (part.named field)) : symbol.Fits part := by
  cases symbol <;> cases part <;> exact fits

/-! ## In front of a derivation -/

namespace State

structure Adds (s t : State) (parts : List Part) : Prop extends Grows s t parts where
  clean : t.Faulty → s.Faulty

/-- Ahead are the parts of a derivation of the form, and then other tokens. -/
structure Faces (host : NodeKind) (F : Form) (s : State) (parts : List Part) (tokens : List Token) :
    Prop where
  proper : s.Proper
  rest : s.rest = tokensOf parts ++ tokens
  valid : Valid host s.depth parts (kindAhead tokens)
  sentence : F.Sentence False parts (kindAhead tokens)

variable {host : NodeKind} {F G : Form} {s t u : State} {parts left right more : List Part}
  {tokens : List Token} {a : TokenKind → Bool}

theorem Adds.refl (pending : s.builder.top.pending = none) : s.Adds s [] := ⟨.refl pending, id⟩

theorem Adds.trans (first : s.Adds t parts) (second : t.Adds u more) : s.Adds u (parts ++ more) :=
  ⟨first.toGrows.trans second.toGrows, first.clean ∘ second.clean⟩

theorem Grows.adds (grows : s.Grows t parts) (same : t.errors = s.errors) : s.Adds t parts :=
  ⟨grows, by simp [Faulty, same]⟩

theorem Grows.rest_eq (grows : s.Grows t parts) (rest : s.rest = tokensOf parts ++ tokens) :
    t.rest = tokens :=
  List.append_cancel_left (grows.rest.symm.trans rest)

theorem Grows.length_le (grows : s.Grows t parts) : t.rest.length ≤ s.rest.length := by
  rw [grows.rest, List.length_append]
  exact Nat.le_add_left _ _

theorem Faces.kindAhead_eq (faces : s.Faces host F parts tokens) :
    kindAhead s.rest = firstKind parts (kindAhead tokens) := by
  rw [faces.rest, kindAhead_append]

theorem Faces.first (faces : s.Faces host F parts tokens) (solid : F.nullable = false) :
    kindAhead s.rest ∈ F.first := by
  rw [faces.kindAhead_eq]
  obtain ⟨-, nullable⟩ | ⟨-, mem⟩ := faces.valid.opens faces.sentence
  · simp [solid] at nullable
  · exact mem

theorem Faces.mono (faces : s.Faces host F parts tokens)
    (narrower : F.Sentence False parts (kindAhead tokens) → G.Sentence False parts (kindAhead tokens)) :
    s.Faces host G parts tokens :=
  ⟨faces.proper, faces.rest, faces.valid, narrower faces.sentence⟩

theorem Faces.of_same (faces : s.Faces host F parts tokens) (rest : t.rest = s.rest)
    (depth : t.depth = s.depth) : t.Faces host F parts tokens := by
  refine ⟨?_, rest.trans faces.rest, depth ▸ faces.valid, faces.sentence⟩
  rw [State.Proper, rest]
  exact faces.proper

theorem Faces.tokensOf_ne_nil (faces : s.Faces host F parts tokens) (solid : F.nullable = false) :
    tokensOf parts ≠ [] := by
  obtain ⟨-, nullable⟩ | ⟨some, -⟩ := faces.valid.opens faces.sentence
  · simp [solid] at nullable
  · exact some

theorem Faces.split (faces : s.Faces host (.seq F G) parts tokens) :
    ∃ left right, parts = left ++ right ∧ s.Faces host F left (tokensOf right ++ tokens) ∧
      (∀ t : State, t.rest = tokensOf right ++ tokens → t.depth = s.depth →
        t.Faces host G right tokens) ∧
      ∀ a : TokenKind → Bool, (∀ k ∈ G.first, a k = false) →
        (G.vanishes (kindAhead tokens) && a (kindAhead tokens)) = false →
          a (kindAhead (tokensOf right ++ tokens)) = false := by
  obtain ⟨left, right, rfl, hl, hr⟩ := faces.sentence
  have rest : s.rest = tokensOf left ++ (tokensOf right ++ tokens) := by
    rw [faces.rest, tokensOf_append, List.append_assoc]
  refine ⟨left, right, rfl, ⟨faces.proper, rest, ?_, ?_⟩, fun t behind depth => ?_,
    fun a follow clear => ?_⟩
  · rw [kindAhead_append]
    exact faces.valid.of_append_left
  · rw [kindAhead_append]
    exact hl
  · refine ⟨fun token mem => faces.proper token ?_, behind, depth ▸ faces.valid.of_append_right, hr⟩
    rw [rest, ← behind]
    exact List.mem_append_right _ mem
  · rw [kindAhead_append]
    obtain ⟨rfl, -⟩ | ⟨-, mem⟩ := faces.valid.of_append_right.opens hr
    · rw [hr.vanishes rfl, Bool.true_and] at clear
      exact clear
    · exact follow _ mem

end State

namespace Outcome

def Takes (s : State) (parts : List Part) (outcome : Outcome) : Prop :=
  ∃ t, outcome = .ok t ∧ s.Adds t parts

variable {host : NodeKind} {F G : Form} {s t : State} {parts left right : List Part}
  {tokens : List Token} {a : TokenKind → Bool} {outcome : Outcome} {next : State → Outcome}

theorem Takes.andThen (first : outcome.Takes s left)
    (second : ∀ t, outcome = .ok t → s.Adds t left → (next t).Takes t right) :
    (outcome.andThen next).Takes s (left ++ right) := by
  obtain ⟨t, rfl, added⟩ := first
  obtain ⟨u, ran, more⟩ := second t rfl added
  exact ⟨u, ran, added.trans more⟩

theorem Takes.seq (faces : s.Faces host (.seq F G) parts tokens)
    (follow : ∀ k ∈ G.first, a k = false)
    (clear : (G.vanishes (kindAhead tokens) && a (kindAhead tokens)) = false)
    (first : ∀ left rest, s.Faces host F left rest → a (kindAhead rest) = false → outcome.Takes s left)
    (second : ∀ t left right, outcome = .ok t → s.Grows t left → t.Faces host G right tokens →
      (next t).Takes t right) :
    (outcome.andThen next).Takes s parts := by
  obtain ⟨left, right, rfl, front, behind, ahead⟩ := faces.split
  refine (first left _ front (ahead a follow clear)).andThen fun t ran added => ?_
  exact second t left right ran added.toGrows (behind t (added.rest_eq front.rest) added.depth_eq)

theorem Takes.join (faces : s.Faces host (.seq F G) parts tokens)
    (first : ∀ left rest, s.Faces host F left rest → outcome.Takes s left)
    (second : ∀ t left right, outcome = .ok t → s.Grows t left → t.Faces host G right tokens →
      (next t).Takes t right) :
    (outcome.andThen next).Takes s parts :=
  Takes.seq (a := among []) faces (fun _ _ => rfl) (Bool.and_false _)
    (fun left rest front _ => first left rest front) second

theorem Takes.of_same (takes : outcome.Takes t parts) (rest : t.rest = s.rest)
    (endOfInput : t.endOfInput = s.endOfInput) (errors : t.errors = s.errors)
    (builder : t.builder = s.builder) : outcome.Takes s parts := by
  obtain ⟨u, ran, added⟩ := takes
  refine ⟨u, ran, ⟨rest ▸ added.rest, endOfInput ▸ added.endOfInput, ?_, builder ▸ added.builder⟩, ?_⟩
  · rw [added.lexical, State.lexicalErrors, errors, State.lexicalErrors]
  · intro faulty
    have faulty := added.clean faulty
    rwa [State.Faulty, errors] at faulty

end Outcome

/-! ## Tokens -/

theorem run_unique {kinds : List TokenKind} {taken : List Token} {parts : List Part}
    {rest tokens : List Token} (all : ∀ t ∈ taken, t.kind ∈ kinds) (stops : kindAhead rest ∉ kinds)
    (run : (Form.run kinds).Sentence False parts (kindAhead tokens))
    (same : tokensOf (taken.map (.token none)) ++ rest = tokensOf parts ++ tokens) :
    taken.map (.token none) = parts := by
  induction parts generalizing taken with
  | nil =>
      cases taken with
      | nil => rfl
      | cons t taken =>
          have eq : t :: (tokensOf (taken.map (.token none)) ++ rest) = tokens := same
          rw [← eq] at run
          exact absurd (all t List.mem_cons_self) run.2
  | cons part parts ih =>
      obtain ⟨t, rfl, kind⟩ := run.1 part List.mem_cons_self
      cases taken with
      | nil =>
          have eq : rest = t :: (tokensOf parts ++ tokens) := same
          rw [eq] at stops
          exact absurd kind stops
      | cons u taken =>
          have eq : u :: (tokensOf (taken.map (.token none)) ++ rest) =
            t :: (tokensOf parts ++ tokens) := same
          obtain ⟨rfl, others⟩ := List.cons.inj eq
          rw [List.map_cons, ih (fun t mem => all t (List.mem_cons_of_mem _ mem))
            ⟨fun part mem => run.1 part (List.mem_cons_of_mem _ mem), run.2⟩ others]

namespace State

variable {host : NodeKind} {s : State} {parts : List Part} {tokens : List Token}
  {label : Option FieldName} {symbols : List Symbol}

theorem takeWhile_adds {look : Look} {kinds : List TokenKind}
    (test : ∀ tokens, look.holds tokens = kinds.contains (kindAhead tokens))
    (within : .endOfInput ∉ kinds) (pending : s.builder.top.pending = none)
    (faces : s.Faces host (.run kinds) parts tokens) : s.Adds (s.takeWhile look) parts := by
  obtain ⟨taken, grows, all, stops⟩ := takeWhile_grows test within pending
  obtain rfl := run_unique all stops faces.sentence (grows.rest.symm.trans faces.rest)
  exact grows.adds (errors_takeUpTo _ _ _)

theorem take_adds (tokenLike : ∀ symbol ∈ symbols, symbol.isToken = true)
    (pending : s.builder.top.pending = label) (faces : s.Faces host (.one label symbols) parts tokens) :
    s.Adds s.take parts := by
  obtain ⟨part, rfl, named, symbol, mem, fits⟩ := faces.sentence
  obtain ⟨t, rfl⟩ : ∃ t, part = .token label t := by
    have isToken := tokenLike symbol mem
    subst named
    cases symbol with
    | token kind =>
        obtain ⟨_, t, rfl, -⟩ := Symbol.fits_token.mp fits
        exact ⟨t, rfl⟩
    | builtin family =>
        cases part with
        | token _ t => exact ⟨t, rfl⟩
        | keyword | literal | node => exact fits.elim
    | keyword | literal | node | raw => cases isToken
  have grows := take_grows (show s.rest = t :: tokens from faces.rest)
  rw [pending] at grows
  exact grows.adds (errors_takeAs _ _)

end State

/-- The run takes every derivation of the form among the children of a node of the kind, with
`depth` nodes around it, unless a token to `avoid` comes after it. -/
def Accepts (host : NodeKind) (depth : Nat) (F : Form) (avoid : TokenKind → Bool)
    (run : State → Outcome) : Prop :=
  ∀ s parts tokens, s.depth = depth → s.builder.top.pending = none →
    s.Faces host F parts tokens → avoid (kindAhead tokens) = false → (run s).Takes s parts

namespace Rule
open Outcome

variable {host : NodeKind} {s : State} {parts : List Part} {tokens : List Token}

theorem terminator_takes (enter : Category → State → Outcome) (pending : s.builder.top.pending = none)
    (faces : s.Faces host .ending parts tokens) : (terminator.run enter s).Takes s parts := by
  obtain ⟨all, ends, closes⟩ := faces.sentence
  have kind : ∀ k : TokenKind, k.isTerminator = true ↔ k ∈ [TokenKind.semicolon, .newline] := by
    intro k
    simp [TokenKind.isTerminator]
  simp only [terminator, terminators, run]
  cases parts with
  | nil =>
      have ahead : s.rest = tokens := faces.rest
      have closing : Look.closing.holds s.rest = true := by
        rw [Look.holds_of_byKind rfl, ahead]
        simpa [Look.closing, Look.anyOf, Look.ofKind, Look.punct, Look.atEnd, TokenKind.isClosing,
          Bool.or_assoc] using closes rfl
      have other : Look.terminator.holds s.rest = false := by
        rw [holds_terminator, ahead, List.contains_eq_mem, decide_eq_false_iff_not, ← kind, ends]
        exact Bool.false_ne_true
      rw [if_neg (by simp [other]), if_pos closing]
      exact ⟨s, rfl, .refl pending⟩
  | cons part parts =>
      have run : (Form.run [.semicolon, .newline]).Sentence False (part :: parts) (kindAhead tokens) := by
        refine ⟨fun other mem => ?_, fun mem => ?_⟩
        · obtain ⟨t, rfl, terminates⟩ := all other mem
          exact ⟨t, rfl, (kind _).mp terminates⟩
        · simp [(kind _).mpr mem] at ends
      have holds : Look.terminator.holds s.rest = true := by
        obtain ⟨t, rfl, terminates⟩ := all part List.mem_cons_self
        rw [holds_terminator, faces.rest]
        change [TokenKind.semicolon, .newline].contains t.kind = true
        simpa using (kind t.kind).mp terminates
      rw [if_pos holds]
      exact ⟨_, rfl, State.takeWhile_adds holds_terminator (by decide) pending
        (faces.mono fun _ => run)⟩

/-! ## Lists -/

variable {go : Look} {ends : Option (TokenKind → Bool)} {F G H : Form} {a b c : TokenKind → Bool}
  {depth : Nat} {item before after : State → Outcome}

theorem list_cases {broken : Prop} {next : TokenKind}
    (sentence : (Form.list ends F G H).Sentence broken parts next) :
    parts = [] ∧ ends.any (· next) = true ∨
      (Form.seq (.seq F G) (listTail ends F G H)).Sentence broken parts next := by
  cases sentence with
  | stop test some holds => exact .inl ⟨rfl, by simp [some, holds]⟩
  | @last own gap _ hi hg =>
      exact .inr ⟨own ++ gap, [], (List.append_nil _).symm, ⟨own, gap, rfl, hi, hg⟩, .inr rfl⟩
  | @more own gap space rest comma _ isComma hi hg hs hl =>
      have ahead : firstKind (.token none comma :: (space ++ rest)) next = .punct .comma := isComma
      refine .inr ⟨own ++ gap, _, (List.append_assoc _ _ _).symm, ⟨own, gap, rfl, ?_, ?_⟩,
        .inl (Form.sentence_token_seq.mpr ⟨comma, _, rfl, isComma, space, rest, rfl, hs, hl⟩)⟩
      · rw [ahead]
        exact hi
      · rw [ahead]
        exact hg

theorem runSeparated_takes (goes : ∀ tokens, go.holds tokens = !ends.any (· (kindAhead tokens)))
    (hi : Accepts host depth F a item) (hb : Accepts host depth G b before)
    (ha : Accepts host depth H c after) (solid : F.nullable = false)
    (clear : ∀ k ∈ G.first ++ [.punct .comma], a k = false) (comma : b (.punct .comma) = false)
    (goesOn : ∀ k ∈ F.first, c k = false ∧ ends.any (· k) = false) {rounds : Nat}
    (atDepth : s.depth = depth) (pending : s.builder.top.pending = none)
    (enough : s.rest.length < rounds) (faces : s.Faces host (.list ends F G H) parts tokens)
    (clearAhead : (kindAhead tokens == .punct .comma || a (kindAhead tokens) ||
      b (kindAhead tokens) || c (kindAhead tokens)) = false) :
    (runSeparated go item before after rounds s).Takes s parts := by
  simp only [Bool.or_eq_false_iff] at clearAhead
  obtain ⟨⟨⟨noComma, clearA⟩, clearB⟩, clearC⟩ := clearAhead
  have first : (Form.list ends F G H).first = F.first := by simp [Form.first, solid]
  -- A round takes an item and its gap. Behind them stands a comma, and the rest of the list is
  -- for the rounds that are left, or nothing.
  induction rounds generalizing s parts with
  | zero => exact absurd enough (Nat.not_lt_zero _)
  | succ rounds ih =>
      rw [runSeparated, goes]
      obtain ⟨rfl, stops⟩ | sentence := list_cases faces.sentence
      · rw [show s.rest = tokens from faces.rest, stops]
        exact ⟨s, rfl, .refl pending⟩
      have faces : s.Faces host (.seq (.seq F G) (listTail ends F G H)) parts tokens :=
        faces.mono fun _ => sentence
      have opening : kindAhead s.rest ∈ F.first := by
        have mem := faces.first (by simp [Form.nullable, solid])
        simpa [Form.first, solid, Form.nullable] using mem
      rw [(goesOn _ opening).2, Bool.not_false, if_pos rfl, ← andThen_assoc]
      refine Takes.seq (a := fun k => b k || G.vanishes k && a k) faces ?_
        (by simp [clearA, clearB]) ?_ ?_
      · intro k mem
        obtain rfl : k = .punct .comma := by
          simpa [listTail, Form.first, Form.punct, Form.nullable, Symbol.first] using mem
        simp [comma, clear]
      · intro left rest front clearSeq
        simp only [Bool.or_eq_false_iff] at clearSeq
        exact Takes.seq front (fun k mem => clear k (List.mem_append_left _ mem)) clearSeq.2
          (fun own rest front clearOwn => hi s own rest atDepth pending front clearOwn)
          fun t own gap _ grown faces =>
            hb t gap rest (grown.depth_eq.trans atDepth) grown.pending faces clearSeq.1
      · intro t left right _ grown faces
        have few := grown.length_le
        have atDepth := grown.depth_eq.trans atDepth
        obtain more | none := faces.sentence
        · have faces : t.Faces host (.seq (.punct .comma) (.seq H (.list ends F G H))) right tokens :=
            faces.mono fun _ => more
          have isComma : kindAhead t.rest = .punct .comma :=
            List.mem_singleton.mp (faces.first rfl)
          obtain ⟨u, behind, ahead, -⟩ := exists_token isComma (by simp)
          have shorter : t.take.rest.length < rounds := by
            have taken : t.take.rest = behind := by rw [State.take, State.takeAs, ahead]
            rw [ahead, List.length_cons] at few
            rw [taken]
            omega
          rw [if_pos (by simpa [Look.punct] using isComma)]
          change ((Outcome.ok t.take).andThen fun u => (after u).andThen
            (runSeparated go item before after rounds)).Takes t right
          refine Takes.join faces (fun _ _ front => ⟨_, rfl,
            State.take_adds (by simp [Symbol.isToken]) grown.pending front⟩)
            fun u _ right ran grown faces => ?_
          obtain rfl := Outcome.ok.inj ran
          have atDepth := grown.depth_eq.trans atDepth
          refine Takes.seq (a := c) faces (fun k mem => (goesOn k (first ▸ mem)).1)
            (by simp [clearC]) (fun space rest => ha _ space rest atDepth grown.pending)
            fun v _ right _ grown faces => ?_
          exact ih (grown.depth_eq.trans atDepth) grown.pending
            (Nat.lt_of_le_of_lt grown.length_le shorter) faces
        · obtain rfl : right = [] := none
          rw [if_neg]
          · exact ⟨t, rfl, .refl grown.pending⟩
          · rw [show t.rest = tokens from faces.rest, Look.punct, Look.holds_kind, noComma]
            exact Bool.false_ne_true

/-! ## Items -/

theorem sentence_tried {next : TokenKind} (sentence : (Form.tried F).Sentence False parts next) :
    F.Sentence False parts next := by
  obtain ⟨left, right, rfl, whole | ⟨never, -⟩, ⟨never, -⟩ | none⟩ := sentence
  · exact never.elim
  · obtain rfl : right = [] := none
    rwa [List.append_nil]
  · exact never.elim
  · exact never.elim

theorem items_cases {next : TokenKind} (sentence : (Form.items F).Sentence False parts next) :
    ∃ gap rest, parts = gap ++ rest ∧
      (∀ part ∈ gap, ∃ t, part = .token none t ∧ t.kind ∈ [TokenKind.semicolon, .newline]) ∧
      (Form.optional (.seq F (.items F))).Sentence False rest next := by
  change Phrases.Many _ parts next at sentence
  induction sentence with
  | nil next => exact ⟨[], [], rfl, by simp, .inr rfl⟩
  | @cons first more next phrase others ih =>
      obtain ⟨part, rfl, unnamed, symbol, mem, fits⟩ | item := phrase
      · obtain ⟨gap, rest, rfl, all, item⟩ := ih
        refine ⟨part :: gap, rest, rfl, List.forall_mem_cons.mpr ⟨?_, all⟩, item⟩
        simp only [List.mem_cons, List.not_mem_nil, or_false] at mem
        obtain rfl | rfl := mem
        · obtain ⟨_, t, rfl, kind⟩ := Symbol.fits_token.mp fits
          exact ⟨t, by rw [← show _ = none from unnamed]; rfl, by simp [kind]⟩
        · obtain ⟨_, t, rfl, kind⟩ := Symbol.fits_token.mp fits
          exact ⟨t, by rw [← show _ = none from unnamed]; rfl, by simp [kind]⟩
      · exact ⟨[], first ++ more, rfl, by simp, .inl ⟨first, more, rfl, sentence_tried item, others⟩⟩

theorem itemRound_ok {sync : SyncSet} {t : State} (ran : item s = .ok t)
    (moved : t.rest.length ≠ s.rest.length) : itemRound sync item s = t := by
  simp [itemRound, ran, Outcome.recovered, moved]

theorem runItems_takes {stop : TokenKind} {sync : SyncSet} (hi : Accepts host depth F a item)
    (solid : F.nullable = false)
    (clear : ∀ k ∈ F.first ++ [.semicolon, .newline, stop, .endOfInput], a k = false)
    (apart : ∀ k ∈ F.first, k ∉ [TokenKind.semicolon, .newline, stop, .endOfInput])
    (stops : stop.isTerminator = false) {rounds : Nat} (atDepth : s.depth = depth)
    (pending : s.builder.top.pending = none) (enough : s.rest.length < rounds)
    (faces : s.Faces host (.items F) parts tokens)
    (ended : (kindAhead tokens != stop && kindAhead tokens != .endOfInput) = false) :
    (ok (runItems (.kind stop) sync item rounds s)).Takes s parts := by
  have last : kindAhead tokens = stop ∨ kindAhead tokens = .endOfInput := by
    simpa [or_iff_not_imp_left] using ended
  have follows : ∀ k ∈ (Form.items F).first, a k = false := by
    intro k mem
    refine clear k ?_
    simp only [Form.items, Form.tried, Form.optional, Form.skipped, Form.first, Form.nullable,
      Symbol.first, List.flatMap_cons, List.flatMap_nil, if_true, List.append_nil] at mem
    simp only [List.mem_append, List.mem_cons, List.not_mem_nil, or_false] at mem ⊢
    tauto
  -- A round takes the terminators and one item. The item has tokens, so the round moves on, and
  -- recovery has nothing to skip.
  induction rounds generalizing s parts with
  | zero => exact absurd enough (Nat.not_lt_zero _)
  | succ rounds ih =>
      obtain ⟨gap, rest, rfl, all, sentence⟩ := items_cases faces.sentence
      have faces : s.Faces host (.seq .terminators (.optional (.seq F (.items F)))) (gap ++ rest)
          tokens := by
        refine faces.mono fun _ => ⟨gap, rest, rfl, ⟨all, ?_⟩, sentence⟩
        obtain item | none := sentence
        · obtain ⟨-, nullable⟩ | ⟨-, mem⟩ := faces.valid.of_append_right.opens item
          · simp [Form.nullable, solid] at nullable
          · have mem : firstKind rest (kindAhead tokens) ∈ F.first := by
              simpa [Form.first, solid] using mem
            have other := apart _ mem
            simp only [List.mem_cons, not_or] at other
            simp [other.1, other.2.1]
        · obtain rfl : rest = [] := none
          obtain eq | eq := last
          · rw [firstKind_nil, eq]
            simpa [TokenKind.isTerminator] using stops
          · rw [firstKind_nil, eq]
            decide
      rw [runItems_succ]
      change ((Outcome.ok (s.takeWhile .terminator)).andThen fun t => .ok
        (if (Look.kind stop).holds t.rest || t.rest.isEmpty then t
          else runItems (.kind stop) sync item rounds (itemRound sync item t))).Takes s (gap ++ rest)
      refine Takes.join faces
        (fun _ _ front => ⟨_, rfl, State.takeWhile_adds holds_terminator (by decide) pending front⟩) ?_
      intro t left right ran grown faces
      obtain rfl := Outcome.ok.inj ran
      obtain item | none := faces.sentence
      · have faces : (s.takeWhile .terminator).Faces host (.seq F (.items F)) right tokens :=
          faces.mono fun _ => item
        have opening : kindAhead (s.takeWhile .terminator).rest ∈ F.first := by
          simpa [Form.first, solid] using faces.first (by simp [Form.nullable, solid])
        have other := apart _ opening
        simp only [List.mem_cons, List.not_mem_nil, or_false, not_or] at other
        have goes : ((Look.kind stop).holds (s.takeWhile .terminator).rest ||
            (s.takeWhile .terminator).rest.isEmpty) = false := by
          rw [Look.holds_kind, Bool.or_eq_false_iff]
          refine ⟨beq_false_of_ne other.2.2.1, Bool.eq_false_iff.mpr fun none => other.2.2.2 ?_⟩
          rw [List.isEmpty_iff.mp none, kindAhead_nil]
        rw [if_neg (Bool.eq_false_iff.mp goes)]
        obtain ⟨first, others, rfl, front, behind, ahead⟩ := faces.split
        have vanishing : ((Form.items F).vanishes (kindAhead tokens) && a (kindAhead tokens)) = false := by
          obtain eq | eq := last <;> simp [eq, clear]
        obtain ⟨u, ran, added⟩ := hi _ first _ (grown.depth_eq.trans atDepth) grown.pending front
          (ahead a follows vanishing)
        have shorter : u.rest.length < (s.takeWhile .terminator).rest.length := by
          rw [added.rest, List.length_append]
          have some := List.length_pos_iff.mpr (front.tokensOf_ne_nil solid)
          omega
        have few := grown.length_le
        obtain ⟨v, eq, more⟩ := ih (added.depth_eq.trans (grown.depth_eq.trans atDepth)) added.pending
          (by omega) (behind u (added.rest_eq front.rest) added.depth_eq)
        refine ⟨v, ?_, added.trans more⟩
        rw [itemRound_ok ran (Nat.ne_of_lt shorter)]
        exact eq
      · obtain rfl : right = [] := none
        have rest : (s.takeWhile .terminator).rest = tokens := faces.rest
        have ends : ((Look.kind stop).holds (s.takeWhile .terminator).rest ||
            (s.takeWhile .terminator).rest.isEmpty) = true := by
          obtain eq | eq := last
          · simp [rest, eq]
          · cases ahead : (s.takeWhile .terminator).rest with
            | nil => simp
            | cons t more =>
                rw [← rest, ahead] at eq
                exact absurd eq (faces.proper t (by simp [ahead]))
        rw [if_pos ends]
        exact ⟨_, rfl, .refl grown.pending⟩

theorem expect_takes (p : Punct) (enter : Category → State → Outcome)
    (pending : s.builder.top.pending = none) (faces : s.Faces host (.punct p) parts tokens) :
    ((expect p).run enter s).Takes s parts := by
  have ahead : kindAhead s.rest = .punct p := List.mem_singleton.mp (faces.first rfl)
  rw [expect, run, if_pos (by simpa [Look.punct] using ahead)]
  exact ⟨_, rfl, State.take_adds (by simp [Symbol.isToken]) pending faces⟩

end Rule

/-! ## Nodes -/

def Enters (base : Nat) (enter : Category → State → Outcome) : Prop :=
  ∀ category host s parts tokens, base ≤ s.depth → host ≠ .primary → host ≠ .callStmt →
    s.Faces host (category.form s.builder.top.pending) parts tokens →
      category.avoid (kindAhead tokens) = false → (enter category s).Takes s parts

namespace State

variable {host kind : NodeKind} {s t : State} {parts : List Part} {tokens : List Token}
  {label : Option FieldName}

theorem Faces.inside (faces : s.Faces host (.one label [.node kind]) parts tokens) (offset : Nat) :
    ∃ inner, parts = [.node label kind true inner] ∧ inner ≠ [] ∧
      (s.onBuilder (Builder.startNode kind offset)).Faces kind (production kind) inner tokens := by
  obtain ⟨inner, rfl⟩ := Form.sentence_node.mp faces.sentence
  obtain ⟨valid, sentence, -⟩ := faces.valid.inside
  refine ⟨inner, rfl, sentence.ne_nil (production_first kind).1, faces.proper, ?_, valid, sentence⟩
  rw [← tokensOf_node]
  exact faces.rest

theorem Adds.close {offset : Nat}
    (added : (s.onBuilder (Builder.startNode kind offset)).Adds t parts) (filled : parts ≠ []) :
    s.Adds (t.onBuilder Builder.close) [.node s.builder.top.pending kind true parts] :=
  ⟨added.toGrows.close filled, added.clean⟩

end State

namespace Outcome

variable {kind : NodeKind} {s : State} {parts : List Part} {outcome : Outcome}

theorem Takes.node (offset : Nat) (filled : parts ≠ [])
    (takes : outcome.Takes (s.onBuilder (Builder.startNode kind offset)) parts) :
    (outcome.andThen fun t => .ok (t.onBuilder Builder.close)).Takes s
      [.node s.builder.top.pending kind true parts] := by
  obtain ⟨t, rfl, added⟩ := takes
  exact ⟨_, rfl, added.close filled⟩

end Outcome

/-! ### Braces -/

namespace Grammar
open Outcome

variable {base : Nat} {enter : Category → State → Outcome} {host kind : NodeKind} {s : State}
  {parts : List Part} {tokens : List Token} {label : Option FieldName} {G : Form}

theorem braceOpened_adds {offset : Nat}
    (faces : (s.onBuilder (Builder.startNode kind offset)).Faces kind
      (.seq (.punct .leftBrace) (.seq .terminators G)) parts tokens) :
    ∃ head rest, parts = head ++ rest ∧
      (s.onBuilder (Builder.startNode .arrayLiteral s.offset)).Adds (braceOpened s) head ∧
      (braceOpened s).Faces kind G rest tokens := by
  let opened := s.onBuilder (Builder.startNode .arrayLiteral s.offset)
  have faces : opened.Faces kind (.seq (.punct .leftBrace) (.seq .terminators G)) parts tokens :=
    faces.of_same rfl rfl
  obtain ⟨brace, others, rfl, front, behind, -⟩ := faces.split
  have taken : opened.Adds opened.take brace :=
    State.take_adds (by simp [Symbol.isToken]) rfl front
  obtain ⟨gap, rest, rfl, gapFront, behind, -⟩ :=
    (behind _ (taken.rest_eq front.rest) taken.depth_eq).split
  have added := State.takeWhile_adds Rule.holds_terminator (by decide) taken.pending gapFront
  exact ⟨brace ++ gap, rest, (List.append_assoc _ _ _).symm, taken.trans added,
    behind _ (added.rest_eq gapFront.rest) added.depth_eq⟩

theorem braceArray_takes (enters : Enters base enter) (deep : base ≤ s.depth + 1)
    (items : Accepts .arrayLiteral (s.depth + 1)
      (.inOrder [.moreItems (.expression none), .terminators, .punct .rightBrace]) (among [])
      ((braceTail .expression).run enter))
    (pending : s.builder.top.pending = label)
    (faces : s.Faces host (.one label [.node .arrayLiteral]) parts tokens) :
    (braceLiteral.run enter s).Takes s parts := by
  obtain ⟨inner, rfl, filled, faces⟩ := faces.inside s.offset
  obtain ⟨head, rest, rfl, opened, faces⟩ := braceOpened_adds faces
  have depth : (braceOpened s).depth = s.depth + 1 := opened.depth_eq
  rw [run_braceLiteral, ← pending]
  refine Takes.node s.offset filled ?_
  -- With items the first one is read before it is known that no colon follows; without any the
  -- brace closes at once.
  obtain ⟨first, last, rfl, whole | none, brace⟩ := faces.sentence
  · obtain ⟨first, _, rfl, hf, more, gap, rfl, hm, hg⟩ := whole
    have faces : (braceOpened s).Faces .arrayLiteral (.seq (.expression none)
        (.inOrder [.moreItems (.expression none), .terminators, .punct .rightBrace]))
          (first ++ (more ++ gap) ++ last) tokens :=
      faces.mono fun _ => ⟨first, more ++ (gap ++ last), by simp, by simpa using hf, more, gap ++ last,
        rfl, by simpa using hm, gap, last, rfl, hg, brace⟩
    have items : ((enter .expression (braceOpened s)).andThen fun t =>
        if (Look.punct .colon).holds t.rest then
          ((mapValue.run enter (braceKeyed t)).andThen fun u =>
            .ok (u.onBuilder Builder.close)).andThen ((braceTail mapEntry).run enter)
        else (braceTail .expression).run enter t).Takes (braceOpened s)
          (first ++ (more ++ gap) ++ last) := by
      refine Takes.seq (a := among [.punct .colonColon]) faces (by decide)
        (by simp [Form.vanishes, Form.inOrder, Form.punct]) (fun own rest front clear => ?_)
        fun t own right _ grown faces => ?_
      · exact enters .expression .arrayLiteral _ own rest (depth ▸ deep) (by decide) (by decide)
          (opened.pending ▸ front) clear
      · have noColon : kindAhead t.rest ≠ .punct .colon :=
          (by decide : ∀ k ∈ Form.first (.inOrder [.moreItems (.expression none), .terminators,
            .punct .rightBrace]), k ≠ .punct .colon) _ (faces.first rfl)
        rw [if_neg (by simpa [Look.punct] using noColon)]
        exact items t right tokens (grown.depth_eq.trans depth) grown.pending faces rfl
    have noBrace : kindAhead (braceOpened s).rest ≠ .punct .rightBrace :=
      (by decide : ∀ k ∈ (Form.expression none).first, k ≠ .punct .rightBrace) _ (faces.first rfl)
    rw [if_neg (by simpa [Look.punct] using noBrace)]
    obtain ⟨t, ran, added⟩ := items
    exact ⟨t, ran, opened.trans added⟩
  · obtain rfl : first = [] := none
    have faces : (braceOpened s).Faces .arrayLiteral (.punct .rightBrace) last tokens :=
      ⟨faces.proper, faces.rest, faces.valid, brace⟩
    have ahead : kindAhead (braceOpened s).rest = .punct .rightBrace :=
      List.mem_singleton.mp (faces.first rfl)
    rw [if_pos (by simpa [Look.punct] using ahead)]
    obtain ⟨t, ran, added⟩ := Rule.expect_takes .rightBrace enter opened.pending faces
    exact ⟨t, ran, opened.trans added⟩

theorem braceMap_takes (enters : Enters base enter) (deep : base ≤ s.depth + 1)
    (value : Accepts .mapEntry (s.depth + 2)
      (.inOrder [.punct .colon, .terminators, .expression (some .value)]) (among [.punct .colonColon])
      (mapValue.run enter))
    (entries : Accepts .mapLiteral (s.depth + 1)
      (.inOrder [.moreItems (.node none .mapEntry), .terminators, .punct .rightBrace]) (among [])
      ((braceTail mapEntry).run enter))
    (pending : s.builder.top.pending = label)
    (faces : s.Faces host (.one label [.node .mapLiteral]) parts tokens) :
    (braceLiteral.run enter s).Takes s parts := by
  obtain ⟨inner, rfl, filled, faces⟩ := faces.inside s.offset
  obtain ⟨head, rest, rfl, opened, faces⟩ := braceOpened_adds faces
  have depth : (braceOpened s).depth = s.depth + 1 := opened.depth_eq
  have noBrace : kindAhead (braceOpened s).rest ≠ .punct .rightBrace :=
    (by decide : ∀ k ∈ (Form.node none .mapEntry).first, k ≠ .punct .rightBrace) _ (faces.first rfl)
  obtain ⟨entry, others, rfl, front, behindEntry, ahead⟩ := faces.split
  obtain ⟨inner, rfl, -, inside⟩ := front.inside 0
  obtain ⟨_, item, rfl, keyFront, behindKey, aheadKey⟩ := inside.split
  obtain ⟨_, rfl, named, symbol, mem, fits⟩ := keyFront.sentence
  obtain ⟨key, unnamed, rfl⟩ := Part.exists_named named
  have keyFaces : (braceOpened s).Faces .mapEntry
      (Category.expression.form (braceOpened s).builder.top.pending) [key]
      (tokensOf item ++ (tokensOf others ++ tokens)) := by
    refine ⟨faces.proper, ?_, keyFront.valid.of_named.shallower (Nat.le_succ _), key, rfl, ?_, symbol,
      mem, fits.of_named⟩
    · rw [tokensOf, ← tokens_named .key]
      exact keyFront.rest
    · rw [unnamed, opened.pending]
  obtain ⟨t, ran, added⟩ := enters .expression .mapEntry _ _ _ (depth ▸ deep) (by decide) (by decide)
    keyFaces (aheadKey _ (by decide) (by simp [Form.vanishes, Form.inOrder, Form.punct]))
  -- The key moves into an entry of its own, where the value follows it.
  have shows : (braceOpened s).builder.top.Shows head :=
    opened.builder.shows [] (OpenNode.empty_shows _ _)
  have keyed := ((added.toGrows.retag .mapLiteral).startAroundLast unnamed
    ⟨shows.children, shows.fields⟩ opened.pending .mapEntry t.offset).nameLast unnamed .key
  have itemFaces : (braceKeyed t).Faces .mapEntry
      (.inOrder [.punct .colon, .terminators, .expression (some .value)]) item
      (tokensOf others ++ tokens) :=
    behindKey _ (added.rest_eq keyFaces.rest) keyed.depth_eq
  have colon : kindAhead t.rest = .punct .colon := List.mem_singleton.mp (itemFaces.first rfl)
  obtain ⟨u, ranValue, valued⟩ := value (braceKeyed t) item _ (keyed.depth_eq.trans (congrArg (· + 1) depth))
    keyed.pending itemFaces (ahead _ (by decide) (by simp [Form.vanishes, Form.inOrder, Form.punct]))
  let mapped := (braceOpened s).onBuilder (Builder.mapTop fun n => { n with kind := .mapLiteral })
  have closed := State.Grows.close (s := mapped) (keyed.trans valued.toGrows) (by simp)
  rw [show mapped.builder.top.pending = none from opened.pending] at closed
  obtain ⟨v, ranRest, finished⟩ := entries (u.onBuilder Builder.close) others tokens
    (closed.depth_eq.trans depth) closed.pending
    (behindEntry _ (closed.rest_eq front.rest) closed.depth_eq) rfl
  have entry : mapped.Adds _ _ :=
    ⟨closed, fun faulty => added.clean (valued.clean faulty)⟩
  have whole : (s.onBuilder (Builder.startNode .mapLiteral s.offset)).Adds v _ :=
    State.Adds.trans ⟨opened.toGrows.retag .mapLiteral, opened.clean⟩ (entry.trans finished)
  refine ⟨v.onBuilder Builder.close, ?_, pending ▸ whole.close filled⟩
  rw [run_braceLiteral, if_neg (by simpa [Look.punct] using noBrace), ran]
  simp only [Outcome.andThen]
  rw [if_pos (by simpa [Look.punct] using colon), ranValue]
  simp only [ranRest]

end Grammar

/-! ## Every rule -/

namespace State

variable {host : NodeKind} {s : State} {parts : List Part} {tokens : List Token}
  {label : Option FieldName} {symbols : List Symbol}

theorem takeKeyword_adds {k : Keyword} (pending : s.builder.top.pending = label)
    (faces : s.Faces host (.one label [.keyword k]) parts tokens) :
    s.Adds (s.takeAs asKeyword) parts := by
  obtain ⟨part, rfl, named, symbol, mem, fits⟩ := faces.sentence
  obtain rfl := List.mem_singleton.mp mem
  obtain ⟨_, t, rfl, -⟩ := Symbol.fits_keyword.mp fits
  obtain rfl : _ = label := named
  have grows := takeKeyword_grows (show s.rest = t :: tokens from faces.rest)
  rw [pending] at grows
  exact grows.adds (errors_takeAs _ _)

theorem takeLiteral_adds {kind : NodeKind} (pending : s.builder.top.pending = label)
    (faces : s.Faces host (.one label [.literal kind]) parts tokens) :
    s.Adds (s.takeLiteral kind kind.flavor) parts := by
  obtain ⟨part, rfl, named, symbol, mem, fits⟩ := faces.sentence
  obtain rfl := List.mem_singleton.mp mem
  cases part with
  | literal _ other t =>
      obtain ⟨rfl, -⟩ := fits
      obtain rfl : _ = label := named
      have grows := takeLiteral_grows (show s.rest = t :: tokens from faces.rest) other
      rw [pending] at grows
      exact ⟨grows, fun ⟨e, mem⟩ => ⟨e, syntactic_mem_takeLiteral mem⟩⟩
  | token | keyword | node => exact fits.elim

theorem Faces.unnamed {field : FieldName}
    (faces : s.Faces host (.one (some field) symbols) parts tokens) :
    ∃ plain : Part, plain.label = none ∧ parts = [plain.named field] ∧
      s.Faces host (.one none symbols) [plain] tokens := by
  obtain ⟨part, rfl, named, symbol, mem, fits⟩ := faces.sentence
  obtain ⟨plain, unnamed, rfl⟩ := Part.exists_named named
  refine ⟨plain, unnamed, rfl, faces.proper, ?_, faces.valid.of_named, plain, rfl, unnamed, symbol, mem,
    fits.of_named⟩
  rw [tokensOf, ← tokens_named field]
  exact faces.rest

end State

theorem le_succ_of_deep {base depth : Nat} {inside : Bool}
    (deep : base ≤ depth + if inside then 0 else 1) : base ≤ depth + 1 := by
  refine Nat.le_trans deep (Nat.add_le_add_left ?_ _)
  split <;> decide

/-- A rule takes every derivation of the form that it realizes. -/
theorem Realizes.takes {base : Nat} {enter : Category → State → Outcome} (enters : Enters base enter)
    {host : NodeKind} {inside : Bool} {given : List Token → Prop} {label : Option FieldName}
    {rule : Rule} {F : Form} {a : TokenKind → Bool} (realizes : Realizes host inside given label rule F a)
    {s : State} {parts : List Part} {tokens : List Token}
    (deep : base ≤ s.depth + if inside then 0 else 1) (holds : given s.rest)
    (pending : s.builder.top.pending = label) (faces : s.Faces host F parts tokens)
    (clear : a (kindAhead tokens) = false) : (rule.run enter s).Takes s parts := by
  -- One case for each way to realize a form. That the next token cannot continue a part is handed
  -- on from the back to the front.
  induction realizes generalizing s parts tokens with
  | done =>
      obtain rfl : parts = [] := faces.sentence
      exact ⟨s, rfl, .refl pending⟩
  | seq _ hands _ _ follow ih₁ ih₂ =>
      simp only [Bool.or_eq_false_iff] at clear
      refine Outcome.Takes.seq faces follow clear.2
        (fun left rest front clear => ih₁ deep holds pending front clear)
        fun t left right ran grown faces => ?_
      exact ih₂ (grown.depth_eq ▸ deep) (hands enter s t holds ran) grown.pending faces clear.1
  | congr same _ ih =>
      rw [same]
      exact ih deep holds pending faces clear
  | branch _ _ ih₁ ih₂ =>
      rw [Rule.run]
      split
      · rename_i test
        exact ih₁ deep ⟨holds, test⟩ pending faces clear
      · rename_i test
        exact ih₂ deep ⟨holds, Bool.eq_false_iff.mpr test⟩ pending faces clear
  | weaken _ weaker ih => exact ih deep (weaker _ holds) pending faces clear
  | restrict _ _ less narrower ih =>
      refine ih deep holds pending (faces.mono (narrower _ _ _ (faces.rest ▸ holds) clear faces.valid))
        (Bool.eq_false_iff.mpr fun avoids => ?_)
      simp [less _ (mem_anyKind _) avoids] at clear
  | fail issue _ never =>
      exact absurd faces.sentence (never _ _ _ (faces.rest ▸ holds) clear faces.valid)
  | announce _ ih =>
      let noted := s.note (.declaration s.offset)
      exact (ih (s := noted) deep holds pending (faces.of_same rfl rfl) clear).of_same rfl rfl rfl rfl
  | take _ tokenLike => exact ⟨_, rfl, State.take_adds tokenLike pending faces⟩
  | takeKeyword k _ => exact ⟨_, rfl, State.takeKeyword_adds pending faces⟩
  | takeWhile kinds test within => exact ⟨_, rfl, State.takeWhile_adds test within pending faces⟩
  | terminator => exact Rule.terminator_takes enter pending faces
  | literal kind _ => exact ⟨_, rfl, State.takeLiteral_adds pending faces⟩
  | label field _ _ ih =>
      obtain ⟨plain, unnamed, rfl, front⟩ := faces.unnamed
      obtain ⟨t, ran, added⟩ := ih deep holds pending front clear
      rw [Rule.run, ran]
      exact ⟨_, rfl, added.toGrows.nameLast unnamed field, added.clean⟩
  | labelNext field _ ih =>
      let waiting := s.onBuilder (Builder.mapTop fun n => { n with pending := some field })
      obtain ⟨t, ran, added⟩ := ih (s := waiting) deep holds rfl (faces.of_same rfl rfl) clear
      exact ⟨t, ran, added.toGrows.of_pending, added.clean⟩
  | node kind _ ih =>
      obtain ⟨inner, rfl, filled, front⟩ := faces.inside s.offset
      subst pending
      exact Outcome.Takes.node s.offset filled (ih (le_succ_of_deep deep) holds rfl front clear)
  | nested category noName noCall =>
      subst pending
      exact enters category _ s parts tokens deep noName noCall faces clear
  | separated goes _ _ _ solid _ _ _ follow comma goesOn ih₁ ih₂ ih₃ =>
      refine Rule.runSeparated_takes goes ?_ ?_ ?_ solid follow comma goesOn rfl pending
        (Nat.lt_succ_self _) faces clear
      · exact fun t parts tokens depth pending => ih₁ (depth ▸ deep) trivial pending
      · exact fun t parts tokens depth pending => ih₂ (depth ▸ deep) trivial pending
      · exact fun t parts tokens depth pending => ih₃ (depth ▸ deep) trivial pending
  | recovering sync _ ih =>
      obtain ⟨t, ran, added⟩ := ih deep holds pending (faces.mono Rule.sentence_tried) clear
      rw [Rule.run, ran]
      exact ⟨t, rfl, added⟩
  | items stop sync _ solid follow apart stops ih =>
      refine Rule.runItems_takes ?_ solid follow apart stops rfl pending (Nat.lt_succ_self _) faces clear
      exact fun t parts tokens depth pending => ih (depth ▸ deep) trivial pending
  | misplaced _ _ => exact faces.sentence.1.elim
  | brace _ _ _ _ ih₁ ih₂ ih₃ =>
      have deep := le_succ_of_deep deep
      obtain ⟨part, rfl, named, symbol, mem, fits⟩ := faces.sentence
      simp only [List.mem_cons, List.not_mem_nil, or_false] at mem
      obtain rfl | rfl := mem
      · refine Grammar.braceArray_takes enters deep ?_ pending
          (faces.mono fun _ => ⟨part, rfl, named, _, List.mem_singleton_self _, fits⟩)
        exact fun t parts tokens depth pending => ih₃ (depth ▸ deep) trivial pending
      · refine Grammar.braceMap_takes enters deep ?_ ?_ pending
          (faces.mono fun _ => ⟨part, rfl, named, _, List.mem_singleton_self _, fits⟩)
        · exact fun t parts tokens depth pending =>
            ih₁ (depth ▸ Nat.le_succ_of_le deep) trivial pending
        · exact fun t parts tokens depth pending => ih₂ (depth ▸ deep) trivial pending

/-- Below the nesting limit every part of a derivation is taken. -/
theorem enterCategory_enters (levels base : Nat) (enough : nestingLimit ≤ base + levels) :
    Enters base (enterCategory levels) := by
  induction levels generalizing base with
  | zero =>
      intro category host s parts tokens deep noName noCall faces clear
      obtain ⟨part, rfl, -, symbol, mem, fits⟩ := faces.sentence
      have shallow := (carefulAll_singleton.mp faces.valid.careful).shallow noName noCall category
        symbol mem fits
      omega
  | succ levels ih =>
      intro category host s parts tokens deep noName noCall faces clear
      have shallow : s.depth < nestingLimit := by
        obtain ⟨part, rfl, -, symbol, mem, fits⟩ := faces.sentence
        exact (carefulAll_singleton.mp faces.valid.careful).shallow noName noCall category symbol mem fits
      have realizes : Realizes host false anywhere s.builder.top.pending
          (Grammar.categoryRule category) (category.form s.builder.top.pending) category.avoid :=
        Grammar.categoryRule_realizes category noName
      rw [enterCategory, if_neg (Nat.not_le.mpr shallow)]
      exact realizes.takes (ih (base + 1) (by omega)) (Nat.add_le_add_right deep 1) trivial rfl faces clear

end UmkaSyntax
