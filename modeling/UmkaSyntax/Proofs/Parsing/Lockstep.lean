import Mathlib.Data.List.TakeWhile
import UmkaSyntax.Proofs.Grammar.Brackets
import UmkaSyntax.Proofs.Parsing.Progress

/-!
Two runs over the same balanced segment of tokens, which is followed by different texts. Every
bracket that the grammar holds open is among those that the segment still has to close, however many
more a failure left open; so no run leaves the segment while a bracket is held, and up to its end
both do the same.
-/

namespace UmkaSyntax

theorem TokenKind.role_eq_terminator {k : TokenKind} :
    k.role = .terminator ↔ k.isTerminator = true := by
  cases k with
  | punct p => cases p <;> decide
  | string b | character b => cases b <;> decide
  | _ => decide

/-! ## Runs of terminators -/

def Builder.addTokens (tokens : List Token) (b : Builder) : Builder :=
  tokens.foldl (fun b t => b.add (.token t)) b

theorem exists_run {α : Type} (p : α → Bool) (list : List α) :
    ∃ taken rest, list = taken ++ rest ∧ (∀ a ∈ taken, p a = true) ∧
      ∀ a ∈ rest.head?, p a = false := by
  refine ⟨list.takeWhile p, list.dropWhile p, List.takeWhile_append_dropWhile.symm,
    fun a mem => List.mem_takeWhile_imp mem, fun a head => ?_⟩
  have stops := List.head?_dropWhile_not p list
  rwa [Option.mem_def.mp head] at stops

def Token.endsLine (all : Bool) (t : Token) : Bool :=
  t.kind == .newline || (all && t.kind == .semicolon)

theorem Token.role_of_endsLine {all : Bool} {t : Token} (ends : t.endsLine all = true) :
    t.kind.role = .terminator := by
  simp only [endsLine, Bool.or_eq_true, Bool.and_eq_true, beq_iff_eq] at ends
  rcases ends with newline | ⟨-, semicolon⟩
  · rw [newline]; rfl
  · rw [semicolon]; rfl

theorem Token.endsLine_of_role {t : Token} (role : t.kind.role = .terminator) :
    t.endsLine true = true := by
  rw [TokenKind.role_eq_terminator] at role
  simpa [endsLine, TokenKind.isTerminator, or_comm] using role

theorem Look.holds_terminators {look : Look} {all : Bool} (h : look.terminators? = some all) :
    look.holds [] = false ∧ ∀ t more, look.holds (t :: more) = t.endsLine all := by
  unfold terminators? at h
  split at h
  · obtain rfl := Option.some.inj h
    exact ⟨rfl, fun t more => Bool.or_comm _ _⟩
  · obtain rfl := Option.some.inj h
    exact ⟨rfl, fun t more => (Bool.or_false _).symm⟩
  · exact absurd h (by simp)

theorem State.takeUpTo_eq {look : Look} {taken rest : List Token} {s : State}
    (ahead : s.rest = taken ++ rest) (takes : ∀ t ∈ taken, ∀ more, look.holds (t :: more) = true)
    (stops : look.holds rest = false) {count : Nat} (enough : taken.length ≤ count) :
    takeUpTo look count s = { s with rest := rest, builder := s.builder.addTokens taken } := by
  induction taken generalizing s count with
  | nil =>
      rw [List.nil_append] at ahead
      subst ahead
      cases count with
      | zero => rfl
      | succ count => rw [takeUpTo, stops]; rfl
  | cons t taken ih =>
      obtain ⟨count, rfl⟩ := Nat.exists_eq_succ_of_ne_zero (n := count) (by
        rintro rfl
        exact absurd enough (by simp))
      have step : s.take = { s with rest := taken ++ rest, builder := s.builder.add (.token t) } := by
        unfold take takeAs
        rw [ahead]
        rfl
      rw [takeUpTo, ahead, List.cons_append, takes t List.mem_cons_self, if_pos rfl, step]
      rw [ih rfl (fun u mem => takes u (List.mem_cons_of_mem t mem)) (Nat.le_of_succ_le_succ enough)]
      rfl

theorem State.takeWhile_eq {look : Look} {all : Bool} (h : look.terminators? = some all)
    {taken rest : List Token} {s : State} (ahead : s.rest = taken ++ rest)
    (takes : ∀ t ∈ taken, t.endsLine all = true) (stops : ∀ t ∈ rest.head?, t.endsLine all = false) :
    s.takeWhile look = { s with rest := rest, builder := s.builder.addTokens taken } := by
  obtain ⟨atEnd, atToken⟩ := Look.holds_terminators h
  refine takeUpTo_eq ahead (fun t mem more => (atToken t more).trans (takes t mem)) ?_ (by simp [ahead])
  cases rest with
  | nil => exact atEnd
  | cons t more => exact (atToken t more).trans (stops t rfl)

theorem State.takeWhile_terminator_of_stops {s : State}
    (stops : ∀ t ∈ s.rest.head?, t.kind.role ≠ .terminator) : s.takeWhile .terminator = s :=
  takeWhile_eq Look.terminators?_terminator (List.nil_append s.rest).symm (by simp) fun t head =>
    Bool.eq_false_iff.mpr fun ends => stops t head (Token.role_of_endsLine ends)

/-- Two ways in which the tokens go on behind a segment: terminators that end it, and then other
tokens. -/
structure Fork where
  leftEnd : List Token
  left : List Token
  rightEnd : List Token
  right : List Token
  terminators_left : ∀ t ∈ leftEnd, t.kind.role = .terminator
  terminators_right : ∀ t ∈ rightEnd, t.kind.role = .terminator
  meet : ∃ t more u more', leftEnd = t :: more ∧ rightEnd = u :: more' ∧ t.kind = u.kind ∧
    t.span.start = u.span.start
  stops_left : ∀ t ∈ left.head?, t.kind.role ≠ .terminator
  stops_right : ∀ t ∈ right.head?, t.kind.role ≠ .terminator

namespace Fork
variable (fork : Fork)

/-- Both runs stand at the same place of the segment, with the closers `due` before its end. -/
structure Within (due : List Punct) (s t : State) : Prop where
  rest : ∃ segment, s.rest = segment ++ (fork.leftEnd ++ fork.left) ∧
    t.rest = segment ++ (fork.rightEnd ++ fork.right) ∧ missingAfter due segment = some []
  builder : t.builder = s.builder
  errors : fork.leftEnd = fork.rightEnd → t.errors = s.errors

/-- Both runs are through with the segment and the terminators behind it. -/
structure Past (s t : State) : Prop where
  rest_left : s.rest = fork.left
  rest_right : t.rest = fork.right
  depth : t.depth = s.depth
  same : fork.leftEnd = fork.rightEnd → t.builder = s.builder ∧ t.errors = s.errors

/-! ## Looking ahead -/

theorem segment_of_head {segment : List Token}
    (head : ∀ t more, segment ++ (fork.leftEnd ++ fork.left) = t :: more →
      t.kind.role ≠ .terminator) :
    ∃ t more, segment = t :: more ∧ t.kind.role ≠ .terminator := by
  cases segment with
  | cons t more => exact ⟨t, more, rfl, head t _ rfl⟩
  | nil =>
      obtain ⟨t, more, -, -, left, -⟩ := fork.meet
      exact absurd (fork.terminators_left t (by simp [left])) (head t (more ++ fork.left) (by simp [left]))

theorem holds_eq {look : Look} {guarded : Bool} (inLine : look.staysInLine guarded = true)
    (segment : List Token)
    (guard : guarded = true → ∃ t more, segment = t :: more ∧ t.kind.role ≠ .terminator) :
    look.holds (segment ++ (fork.rightEnd ++ fork.right)) =
      look.holds (segment ++ (fork.leftEnd ++ fork.left)) := by
  obtain ⟨first, more, first', more', left, right, kind, -⟩ := fork.meet
  have notName : (first.kind == .name) = false := by
    have role := fork.terminators_left first (by simp [left])
    cases eq : first.kind <;> first | rfl | (rw [eq] at role; exact absurd role (by decide))
  induction look generalizing guarded segment with
  | always => rfl
  | kind k => cases segment <;> simp [Look.holds, left, right, kind]
  | keyword k => cases segment <;> simp [Look.holds, left, right, ← kind, notName]
  | builtin family => cases segment <;> simp [Look.holds, left, right, ← kind, notName]
  | next look ih =>
      obtain ⟨isGuarded, inLine⟩ := Bool.and_eq_true_iff.mp inLine
      obtain ⟨t, rest, rfl, -⟩ := guard isGuarded
      exact ih inLine rest fun h => absurd h (by simp)
  | both a b iha ihb =>
      obtain ⟨lineA, lineB⟩ := Bool.and_eq_true_iff.mp inLine
      rw [Look.holds, Look.holds, iha lineA segment guard]
      cases holds : a.holds (segment ++ (fork.leftEnd ++ fork.left)) with
      | false => rfl
      | true =>
          refine congrArg _ (ihb lineB segment fun h => ?_)
          rcases Bool.or_eq_true_iff.mp h with isGuarded | refuses
          · exact guard isGuarded
          · refine fork.segment_of_head fun t more eq => ?_
            exact Look.not_terminator refuses (eq ▸ holds)
  | either a b iha ihb =>
      obtain ⟨lineA, lineB⟩ := Bool.and_eq_true_iff.mp inLine
      rw [Look.holds, Look.holds, iha lineA segment guard, ihb lineB segment guard]
  | not look ih => rw [Look.holds, Look.holds, ih inLine segment guard]

/-! ## Steps inside of the segment -/

namespace Within
variable {fork : Fork} {due : List Punct} {s t : State}

theorem holds_eq (within : fork.Within due s t) {look : Look}
    (inLine : look.staysInLine false = true) : look.holds t.rest = look.holds s.rest := by
  obtain ⟨segment, left, right, -⟩ := within.rest
  rw [left, right]
  exact fork.holds_eq inLine segment fun h => absurd h (by simp)

theorem offset_eq (within : fork.Within due s t) : t.offset = s.offset := by
  obtain ⟨segment, left, right, -⟩ := within.rest
  obtain ⟨first, more, first', more', hl, hr, -, start⟩ := fork.meet
  rw [State.offset, State.offset, State.current, State.current, left, right, hl, hr]
  cases segment with
  | nil => exact start.symm
  | cons token segment => rfl

theorem errorHere_eq (within : fork.Within due s t) (same : fork.leftEnd = fork.rightEnd)
    (issue : SyntaxIssue) : t.errorHere issue = s.errorHere issue := by
  obtain ⟨segment, left, right, -⟩ := within.rest
  obtain ⟨first, more, -, -, hl, -⟩ := fork.meet
  rw [State.errorHere, State.errorHere, State.current, State.current, left, right, ← same, hl]
  cases segment <;> rfl

theorem onBuilder (within : fork.Within due s t) (f : Builder → Builder) :
    fork.Within due (s.onBuilder f) (t.onBuilder f) :=
  { within with builder := congrArg f within.builder }

theorem note (within : fork.Within due s t) (e f : Event) :
    fork.Within due (s.note e) (t.note f) :=
  { within with }

theorem record (within : fork.Within due s t) {e f : SyntaxError}
    (same : fork.leftEnd = fork.rightEnd → e = f) :
    fork.Within due (s.record (.syntactic e)) (t.record (.syntactic f)) where
  rest := within.rest
  builder := within.builder
  errors ends := by rw [State.record, State.record, within.errors ends, same ends]

theorem add (within : fork.Within due s t) {segment : List Token} {due' : List Punct}
    (balanced : missingAfter due' segment = some []) (child : Child) (errors : List LexicalError) :
    fork.Within due'
      ({ s with rest := segment ++ (fork.leftEnd ++ fork.left),
                builder := s.builder.add child }.recordLexical errors)
      ({ t with rest := segment ++ (fork.rightEnd ++ fork.right),
                builder := t.builder.add child }.recordLexical errors) where
  rest := ⟨segment, rfl, rfl, balanced⟩
  builder := congrArg (Builder.add child) within.builder
  errors ends := by
    simp only [State.recordLexical, within.errors ends]

theorem head (within : fork.Within due s t) {token : Token} {more : List Token}
    (ahead : s.rest = token :: more) (role : token.kind.role ≠ .terminator) :
    ∃ segment, more = segment ++ (fork.leftEnd ++ fork.left) ∧
      t.rest = token :: (segment ++ (fork.rightEnd ++ fork.right)) ∧
      missingAfter due (token :: segment) = some [] := by
  obtain ⟨segment, left, right, balanced⟩ := within.rest
  obtain ⟨first, segment, rfl, -⟩ := @segment_of_head fork segment fun u rest eq => by
    rw [← left, ahead] at eq
    rwa [← (List.cons.inj eq).1]
  obtain ⟨rfl, rfl⟩ := List.cons.inj (left.symm.trans ahead)
  exact ⟨segment, rfl, right, balanced⟩

theorem takeWhile (within : fork.Within due s t) {look : Look} {all : Bool}
    (h : look.terminators? = some all) :
    (fork.Within due (s.takeWhile look) (t.takeWhile look) ∧
        ∃ token more, (s.takeWhile look).rest = token :: more ∧ token.endsLine all = false) ∨
      (due = [] ∧ (all = true → fork.Past (s.takeWhile look) (t.takeWhile look))) := by
  obtain ⟨segment, left, right, balanced⟩ := within.rest
  obtain ⟨taken, rest, rfl, takes, stops⟩ := exists_run (·.endsLine all) segment
  rw [missingAfter_append, missingAfter_terminators fun t mem => Token.role_of_endsLine (takes t mem)]
    at balanced
  cases rest with
  | cons token rest =>
      refine .inl ?_
      rw [List.append_assoc] at left right
      rw [State.takeWhile_eq h left takes stops, State.takeWhile_eq h right takes stops]
      exact ⟨⟨⟨token :: rest, rfl, rfl, balanced⟩, by rw [within.builder], within.errors⟩,
        token, _, rfl, stops token rfl⟩
  | nil =>
      refine .inr ⟨Option.some.inj balanced, ?_⟩
      rintro rfl
      rw [List.append_nil, ← List.append_assoc] at left right
      have takesLeft : ∀ t ∈ taken ++ fork.leftEnd, t.endsLine true = true := fun t mem =>
        (List.mem_append.mp mem).elim (takes t) fun mem =>
          Token.endsLine_of_role (fork.terminators_left t mem)
      have takesRight : ∀ t ∈ taken ++ fork.rightEnd, t.endsLine true = true := fun t mem =>
        (List.mem_append.mp mem).elim (takes t) fun mem =>
          Token.endsLine_of_role (fork.terminators_right t mem)
      have stopsLeft : ∀ t ∈ fork.left.head?, t.endsLine true = false := fun t head =>
        Bool.eq_false_iff.mpr fun ends => fork.stops_left t head (Token.role_of_endsLine ends)
      have stopsRight : ∀ t ∈ fork.right.head?, t.endsLine true = false := fun t head =>
        Bool.eq_false_iff.mpr fun ends => fork.stops_right t head (Token.role_of_endsLine ends)
      have depth : (t.takeWhile look).depth = (s.takeWhile look).depth := by
        simp only [State.depth, Builder.depth, State.below_takeWhile, within.builder]
      rw [State.takeWhile_eq h left takesLeft stopsLeft,
        State.takeWhile_eq h right takesRight stopsRight] at depth ⊢
      exact ⟨rfl, rfl, depth, fun same => ⟨by rw [same, within.builder], within.errors same⟩⟩

theorem discard (within : fork.Within due s t) (taken : List Token) {rest : List Token} {due' : List Punct}
    (left : s.rest = taken ++ (rest ++ (fork.leftEnd ++ fork.left)))
    (right : t.rest = taken ++ (rest ++ (fork.rightEnd ++ fork.right)))
    (balanced : missingAfter due' rest = some []) :
    fork.Within due' (s.discard taken.length) (t.discard taken.length) := by
  unfold State.discard
  simp only [left, right, List.take_left, List.drop_left, within.offset_eq]
  split
  · rename_i none
    obtain rfl : taken = [] := by simpa using none
    exact { within with rest := ⟨rest, left, right, balanced⟩ }
  · exact within.add balanced _ _

end Within

/-! ## Recovery -/

theorem sublist_of_ne {base outer : List Punct} {p : Punct} (sublist : base.Sublist (p :: outer))
    (other : base.head? ≠ some p) : base.Sublist outer := by
  cases sublist with
  | cons _ sublist => exact sublist
  | cons_cons _ _ => exact absurd rfl other

theorem opens_iff (t : Token) : State.opens t = true ↔ ∃ closer, t.kind.role = .opening closer := by
  cases kind : t.kind with
  | punct p => cases p <;> simp [State.opens, kind, Punct.opens, TokenKind.role, Punct.role]
  | _ => simp [State.opens, kind, TokenKind.role]

theorem closes_iff (t : Token) : State.closes t = true ↔ ∃ p, t.kind.role = .closing p := by
  cases kind : t.kind with
  | punct p => cases p <;> simp [State.closes, kind, Punct.closes, TokenKind.role, Punct.role]
  | _ => simp [State.closes, kind, TokenKind.role]

theorem kind_of_closing {k : TokenKind} {p : Punct} (role : k.role = .closing p) :
    k = .punct p := by
  cases k with
  | punct q => cases q <;> simp [TokenKind.role, Punct.role] at role <;> rw [role]
  | _ => exact absurd role (by simp [TokenKind.role])

theorem skip_step {base outer : List Punct} (inner : List Punct) {t : Token} {segment : List Token}
    (balanced : missingAfter (inner ++ outer) (t :: segment) = some [])
    (sublist : base.Sublist outer)
    (passes : ∀ p, inner = [] → t.kind = .punct p → base.head? ≠ some p) :
    ∃ inner' outer', missingAfter (inner' ++ outer') segment = some [] ∧ base.Sublist outer' ∧
      inner'.length = if State.opens t then inner.length + 1
        else if State.closes t then inner.length - 1 else inner.length := by
  cases role : t.kind.role with
  | opening closer =>
      rw [missingAfter, role] at balanced
      rw [if_pos ((opens_iff t).mpr ⟨closer, role⟩)]
      exact ⟨closer :: inner, outer, balanced, sublist, rfl⟩
  | closing p =>
      have closes := (closes_iff t).mpr ⟨p, role⟩
      have notOpens : ¬ State.opens t = true := by simp [opens_iff, role]
      rw [if_neg notOpens, if_pos closes]
      obtain ⟨due, eq, closed⟩ := missingAfter_closing role balanced
      cases inner with
      | nil =>
          obtain rfl : outer = p :: due := eq
          exact ⟨[], due, closed,
            sublist_of_ne sublist (passes p rfl (kind_of_closing role)), rfl⟩
      | cons q inner =>
          obtain ⟨-, rfl⟩ := List.cons.inj eq
          exact ⟨inner, outer, closed, sublist, rfl⟩
  | terminator | plain =>
      rw [missingAfter, role] at balanced
      have notOpens : ¬ State.opens t = true := by simp [opens_iff, role]
      have notCloses : ¬ State.closes t = true := by simp [closes_iff, role]
      rw [if_neg notOpens, if_neg notCloses]
      exact ⟨inner, outer, balanced, sublist, rfl⟩

/-- Skipping stays in the segment, and does not pass the closer that is due for the bracket held
last. Behind `inner`, the closers of the brackets skipped so far, stand the others. -/
theorem skipLength_within {look : Look} (inLine : look.staysInLine false = true)
    (atTerminator : ∀ t more, t.kind.role = .terminator → look.holds (t :: more) = true)
    {base : List Punct}
    (atCloser : ∀ t more p, base.head? = some p → t.kind = .punct p → look.holds (t :: more) = true)
    (segment : List Token) (inner : List Punct) {outer : List Punct}
    (sublist : base.Sublist outer)
    (balanced : missingAfter (inner ++ outer) segment = some []) :
    ∃ taken rest due, segment = taken ++ rest ∧ missingAfter due rest = some [] ∧
      base.Sublist due ∧
      State.skipLength look inner.length (segment ++ (fork.leftEnd ++ fork.left)) = taken.length ∧
      State.skipLength look inner.length (segment ++ (fork.rightEnd ++ fork.right)) =
        taken.length := by
  -- Skipping is over at the end of the segment, since the terminator there stops it; within the
  -- segment `skip_step` tells which closers are due next.
  induction segment generalizing inner outer with
  | nil =>
      obtain ⟨rfl, rfl⟩ := List.append_eq_nil_iff.mp (Option.some.inj balanced)
      obtain ⟨first, more, first', more', left, right, -⟩ := fork.meet
      refine ⟨[], [], [], rfl, rfl, sublist, ?_, ?_⟩
      · rw [left]
        exact if_pos (atTerminator _ _ (fork.terminators_left first (by simp [left])))
      · rw [right]
        exact if_pos (atTerminator _ _ (fork.terminators_right first' (by simp [right])))
  | cons t segment ih =>
      by_cases stops : inner = [] ∧ look.holds (t :: segment ++ (fork.leftEnd ++ fork.left)) = true
      · obtain ⟨rfl, stops⟩ := stops
        have stops' := fork.holds_eq inLine (t :: segment) fun h => absurd h (by simp)
        exact ⟨[], t :: segment, outer, rfl, balanced, sublist, if_pos stops,
          if_pos (stops'.trans stops)⟩
      · obtain ⟨inner', outer', balanced', sublist', depth⟩ := skip_step inner balanced sublist
          fun p none kind held => stops ⟨none, atCloser t _ p held kind⟩
        obtain ⟨taken, rest, due, rfl, balanced'', sublist'', left, right⟩ := ih inner' sublist' balanced'
        have next : ∀ more, (inner = [] → look.holds (t :: more) = false) →
            State.skipLength look inner.length (t :: more) =
              State.skipLength look inner'.length more + 1 := by
          intro more goes
          rw [depth]
          cases inner with
          | nil =>
              rw [List.length_nil, State.skipLength, if_neg (by simp [goes])]
              simp
          | cons q inner => rfl
        have goes : inner = [] → look.holds (t :: (taken ++ rest ++ (fork.leftEnd ++ fork.left))) =
            false := fun none => Bool.eq_false_iff.mpr fun holds => stops ⟨none, holds⟩
        refine ⟨t :: taken, rest, due, rfl, balanced'', sublist'', ?_, ?_⟩
        · exact (next _ goes).trans (congrArg (· + 1) left)
        · refine (next _ fun none => ?_).trans (congrArg (· + 1) right)
          exact (fork.holds_eq inLine (t :: (taken ++ rest)) fun h => absurd h (by simp)).trans
            (goes none)

namespace Within
variable {fork : Fork} {due base : List Punct} {s t : State}

theorem recover (within : fork.Within due s t) (sublist : base.Sublist due) {sync : SyncSet}
    (held : ∀ p, base.head? = some p → sync.closer? = some p) {e f : SyntaxError}
    (same : fork.leftEnd = fork.rightEnd → e = f) (depth : Nat) :
    ∃ due', base.Sublist due' ∧
      fork.Within due' (s.recover e depth sync) (t.recover f depth sync) := by
  obtain ⟨segment, left, right, balanced⟩ := within.rest
  have closed := (within.record same).onBuilder (Builder.closeTo depth)
  obtain ⟨taken, rest, due', rfl, balanced', sublist', countLeft, countRight⟩ :=
    fork.skipLength_within sync.look_staysInLine
      (fun t more role => Look.holds_of_covers (sync.look_covers_terminator role) more)
      (fun t more p head kind =>
        Look.holds_of_covers (kind ▸ SyncSet.look_covers_closer (held p head)) more)
      segment [] sublist balanced
  rw [List.append_assoc] at left right
  have skipped := closed.discard taken left right balanced'
  rw [List.append_assoc, ← left] at countLeft
  rw [List.append_assoc, ← right] at countRight
  refine ⟨due', sublist', ?_⟩
  simp only [List.length_nil] at countLeft countRight
  by_cases none : taken.length = 0
  · rw [none] at countLeft countRight skipped
    simp only [State.recover, State.onBuilder, State.record, countLeft, countRight, ↓reduceIte]
    exact skipped
  · simp only [State.recover, State.onBuilder, State.record, countLeft, countRight, none,
      ↓reduceIte]
    exact skipped.note _ _

theorem skipStuck (within : fork.Within due s t) (sublist : base.Sublist due) {token : Token}
    {more : List Token} (ahead : s.rest = token :: more) (role : token.kind.role ≠ .terminator)
    (other : ∀ p, base.head? = some p → token.kind ≠ .punct p) :
    ∃ due', base.Sublist due' ∧ fork.Within due' s.skipStuck t.skipStuck := by
  obtain ⟨segment, left, right, balanced⟩ := within.head ahead role
  subst left
  obtain ⟨inner, outer, balanced', sublist', -⟩ := skip_step [] balanced sublist
    fun p _ kind head => other p head kind
  exact ⟨inner ++ outer, sublist'.trans (List.sublist_append_right _ _),
    (within.note _ _).discard [token] ahead right balanced'⟩

end Within

/-! ## Outcomes -/

/-- Both runs stand in the segment, which still closes the brackets held, or both are through with
it and hold none. -/
def Joint (base : List Punct) (s t : State) : Prop :=
  (∃ due, fork.Within due s t ∧ base.Sublist due) ∨ (base = [] ∧ fork.Past s t)

inductive EndJoint (base : List Punct) : Outcome → Outcome → Prop
  | ok {s t : State} (joint : fork.Joint base s t) : EndJoint base (.ok s) (.ok t)
  | failed {e f : SyntaxError} {due : List Punct} {s t : State}
      (same : fork.leftEnd = fork.rightEnd → e = f) (within : fork.Within due s t)
      (sublist : base.Sublist due) : EndJoint base (.failed e s) (.failed f t)

variable {fork} in
theorem EndJoint.recovered {base : List Punct} {first second : Outcome}
    (joint : fork.EndJoint base first second) (sync : SyncSet)
    (held : ∀ p, base.head? = some p → sync.closer? = some p) (depth : Nat) :
    fork.Joint base (first.recovered depth sync) (second.recovered depth sync) := by
  cases joint with
  | ok joint => exact joint
  | failed same within sublist =>
      obtain ⟨due', sublist', recovered⟩ := within.recover sublist held same depth
      exact .inl ⟨due', recovered, sublist'⟩

theorem rest_length_left {due : List Punct} {s t : State} (within : fork.Within due s t) :
    fork.left.length < s.rest.length := by
  obtain ⟨segment, left, -⟩ := within.rest
  obtain ⟨first, more, -, -, ends, -⟩ := fork.meet
  simp only [left, ends, List.length_append, List.length_cons]
  omega

theorem rest_length_right {due : List Punct} {s t : State} (within : fork.Within due s t) :
    fork.right.length < t.rest.length := by
  obtain ⟨segment, -, right, -⟩ := within.rest
  obtain ⟨-, -, first, more, -, ends, -⟩ := fork.meet
  simp only [right, ends, List.length_append, List.length_cons]
  omega

theorem rest_length_eq_iff {due due' : List Punct} {s t s' t' : State}
    (within : fork.Within due s t) (within' : fork.Within due' s' t') :
    t'.rest.length = t.rest.length ↔ s'.rest.length = s.rest.length := by
  obtain ⟨segment, left, right, -⟩ := within.rest
  obtain ⟨segment', left', right', -⟩ := within'.rest
  simp only [left, right, left', right', List.length_append]
  omega

section Items
variable {stop : Look} {sync : SyncSet} {item : State → Outcome} {base : List Punct}

theorem itemRound_joint
    (held : ∀ p, base.head? = some p → sync.closer? = some p ∧ stop.covers (.punct p) = true)
    (reaches : ∀ s, (item s).Reaches s) {due : List Punct} {s t : State}
    (within : fork.Within due s t) (joint : fork.EndJoint base (item s) (item t))
    {token : Token} {more : List Token} (ahead : s.rest = token :: more)
    (role : token.kind.role ≠ .terminator) (goes : stop.holds s.rest = false) :
    fork.Joint base (Rule.itemRound sync item s) (Rule.itemRound sync item t) := by
  have depth : t.depth = s.depth := congrArg Builder.depth within.builder
  have recovered := joint.recovered sync (fun p h => (held p h).1) s.depth
  have steps := ((reaches s).recovered s.depth sync).advances
  have apart := fork.rest_length_left within
  have apart' := fork.rest_length_right within
  simp only [Rule.itemRound, depth]
  generalize (item s).recovered s.depth sync = after at *
  generalize (item t).recovered s.depth sync = after' at *
  rcases recovered with ⟨due', inside, sublist'⟩ | ⟨rfl, past⟩
  · have alike := fork.rest_length_eq_iff within inside
    by_cases stuck : after.rest.length = s.rest.length
    · -- Without progress the token ahead is the one at which the item began.
      obtain ⟨-, taken, -, split, -⟩ := steps
      obtain rfl : taken = [] := by
        have sizes := congrArg List.length split
        rw [List.length_append] at sizes
        exact List.length_eq_zero_iff.mp (by omega)
      rw [List.nil_append, ahead] at split
      obtain ⟨due'', sublist'', skipped⟩ := inside.skipStuck sublist' split.symm role
        fun p head kind => by
          rw [ahead, Look.holds_of_covers (kind ▸ (held p head).2)] at goes
          exact absurd goes (by simp)
      rw [if_pos stuck, if_pos (alike.mpr stuck)]
      exact .inl ⟨due'', skipped, sublist''⟩
    · rw [if_neg stuck, if_neg (stuck ∘ alike.mp)]
      exact .inl ⟨due', inside, sublist'⟩
  · have moved : ¬ after.rest.length = s.rest.length := by rw [past.rest_left]; omega
    have moved' : ¬ after'.rest.length = t.rest.length := by rw [past.rest_right]; omega
    rw [if_neg moved, if_neg moved']
    exact .inr ⟨rfl, past⟩

variable (stop sync) in
/-- Items run alike up to the token that stops them, or to the end of the segment; from there on
the rounds that are left suffice for the rest. -/
theorem runItems_joint (inLine : stop.staysInLine false = true)
    (held : ∀ p, base.head? = some p → sync.closer? = some p ∧ stop.covers (.punct p) = true)
    (reaches : ∀ s, (item s).Reaches s)
    (hi : ∀ due s t, fork.Within due s t → base.Sublist due →
      fork.EndJoint base (item s) (item t))
    (rounds rounds' : Nat) {due : List Punct} {s t : State} (within : fork.Within due s t)
    (sublist : base.Sublist due) (enough : s.rest.length < rounds)
    (enough' : t.rest.length < rounds') :
    (∃ due s' t', fork.Within due s' t' ∧ base.Sublist due ∧ stop.holds s'.rest = true ∧
        Rule.runItems stop sync item rounds s = s' ∧ Rule.runItems stop sync item rounds' t = t') ∨
      (base = [] ∧ ∃ s' t' n n', fork.Past s' t' ∧ fork.left.length < n ∧ fork.right.length < n' ∧
        Rule.Rounds sync item s s' ∧ Rule.Rounds sync item t t' ∧
        Rule.runItems stop sync item rounds s = Rule.runItems stop sync item n s' ∧
        Rule.runItems stop sync item rounds' t = Rule.runItems stop sync item n' t') := by
  -- Either a round meets the token that stops the loop, or one takes the terminators at the end
  -- of the segment; from there each run has the rounds that are left to it.
  induction rounds generalizing rounds' s t due with
  | zero => exact absurd enough (Nat.not_lt_zero _)
  | succ rounds ih =>
      obtain ⟨rounds', rfl⟩ := Nat.exists_eq_succ_of_ne_zero (Nat.ne_zero_of_lt enough')
      have shorter := (State.takeWhile_steps .terminator s).advances.rest_length_le
      have shorter' := (State.takeWhile_steps .terminator t).advances.rest_length_le
      have apart := fork.rest_length_left within
      have apart' := fork.rest_length_right within
      have begins := @Rule.Round.terminators sync item s
      have begins' := @Rule.Round.terminators sync item t
      rw [Rule.runItems_succ, Rule.runItems_succ]
      rcases within.takeWhile Look.terminators?_terminator with
        ⟨start, token, more, ahead, other⟩ | ⟨rfl, past⟩
      · have role : token.kind.role ≠ .terminator := fun role =>
          Bool.false_ne_true (other.symm.trans (Token.endsLine_of_role role))
        generalize s.takeWhile .terminator = s at *
        generalize t.takeWhile .terminator = t at *
        obtain ⟨segment, rfl, ahead', -⟩ := start.head ahead role
        rw [start.holds_eq inLine, show s.rest.isEmpty = false by rw [ahead]; rfl,
          show t.rest.isEmpty = false by rw [ahead']; rfl, Bool.or_false]
        cases stops : stop.holds s.rest with
        | true => exact .inl ⟨due, s, t, start, sublist, stops, if_pos rfl, if_pos rfl⟩
        | false =>
            have after := fork.itemRound_joint held reaches start (hi due s t start sublist) ahead
              role stops
            have lt := Rule.itemRound_shorter sync reaches (s := s) (by simp [ahead])
            have lt' := Rule.itemRound_shorter sync reaches (s := t) (by simp [ahead'])
            have goes := @Rule.Round.item sync item s
            have goes' := @Rule.Round.item sync item t
            simp only [Bool.false_eq_true, if_false]
            rcases after with ⟨due', inside, sublist'⟩ | ⟨rfl, past⟩
            · rcases ih rounds' inside sublist' (by omega) (by omega) with
                early | ⟨none, s', t', n, n', past, hn, hn', before, before', hs, ht⟩
              · exact .inl early
              · exact .inr ⟨none, s', t', n, n', past, hn, hn', .head begins (.head goes before),
                  .head begins' (.head goes' before'), hs, ht⟩
            · have left := past.rest_left
              have right := past.rest_right
              exact .inr ⟨rfl, _, _, rounds, rounds', past, by rw [← left]; omega,
                by rw [← right]; omega, .head begins (.single goes), .head begins' (.single goes'),
                rfl, rfl⟩
      · have past := past rfl
        refine .inr ⟨List.sublist_nil.mp sublist, _, _, rounds + 1, rounds' + 1, past, by omega,
          by omega, .single begins, .single begins', ?_, ?_⟩
        · rw [Rule.runItems_succ, State.takeWhile_takeWhile]
        · rw [Rule.runItems_succ, State.takeWhile_takeWhile]

end Items

/-! ## Rules -/

/-- Both runs of a rule end as its flow says, around which the brackets of `base` are held. -/
inductive FlowJoint (base : List Punct) : Flow → Outcome → Outcome → Prop
  | stays {ahead : Foresight} {held due : List Punct} {stays : Bool} {s t : State}
      (within : fork.Within due s t) (sublist : (held ++ base).Sublist due)
      (foresees : ahead.Holds s.rest) :
      FlowJoint base (.goes ahead held stays) (.ok s) (.ok t)
  | leaves {ahead : Foresight} {held : List Punct} {s t : State} (none : held ++ base = [])
      (past : fork.Past s t) : FlowJoint base (.goes ahead held false) (.ok s) (.ok t)
  | failed {flow : Flow} {e f : SyntaxError} {due : List Punct} {s t : State}
      (same : fork.leftEnd = fork.rightEnd → e = f) (within : fork.Within due s t)
      (sublist : base.Sublist due) : FlowJoint base flow (.failed e s) (.failed f t)

section Rules
variable {fork} {base held due : List Punct} {flow : Flow} {ahead : Foresight}
  {first second : Outcome} {s t : State}

theorem FlowJoint.endJoint {stays : Bool}
    (joint : fork.FlowJoint base (.goes ahead [] stays) first second) :
    fork.EndJoint base first second := by
  cases joint with
  | stays within sublist _ => exact .ok (.inl ⟨_, within, sublist⟩)
  | leaves none past => exact .ok (.inr ⟨none, past⟩)
  | failed same within sublist => exact .failed same within sublist

theorem FlowJoint.comes (joint : fork.FlowJoint base flow first second)
    (comes : flow.comesTo held = true) : fork.FlowJoint base (.goes [] held true) first second := by
  cases joint with
  | stays within sublist _ =>
      obtain ⟨same, -⟩ := Bool.and_eq_true_iff.mp comes
      obtain rfl := eq_of_beq same
      exact .stays within sublist trivial
  | leaves _ _ => exact absurd comes (by simp [Flow.comesTo])
  | failed same within sublist => exact .failed same within sublist

theorem FlowJoint.andThen {next : Foresight → List Punct → Flow} {more : State → Outcome}
    (joint : fork.FlowJoint base flow first second) (safe : flow.andThen next ≠ .astray)
    (step : ∀ ahead held due s t, next ahead held ≠ .astray → fork.Within due s t →
      (held ++ base).Sublist due → ahead.Holds s.rest →
        fork.FlowJoint base (next ahead held) (more s) (more t)) :
    fork.FlowJoint base (flow.andThen next) (first.andThen more) (second.andThen more) := by
  cases joint with
  | @stays _ _ _ stays _ _ within sublist foresees =>
      cases stays with
      | false => exact absurd rfl safe
      | true => exact step _ _ _ _ _ safe within sublist foresees
  | leaves _ _ => exact absurd rfl safe
  | failed same within sublist => exact .failed same within sublist

theorem FlowJoint.weaken {flow' : Flow} (joint : fork.FlowJoint base flow first second)
    (weaker : flow.Weaker flow') : fork.FlowJoint base flow' first second := by
  cases joint with
  | failed same within sublist => exact .failed same within sublist
  | stays within sublist foresees =>
      cases flow' with
      | astray | stops => exact weaker.elim
      | goes ahead' held' stays' =>
          obtain ⟨rfl, known, -⟩ := weaker
          exact .stays within sublist (known _ foresees)
  | leaves none past =>
      cases flow' with
      | astray | stops => exact weaker.elim
      | goes ahead' held' stays' =>
          obtain ⟨rfl, -, stays⟩ := weaker
          cases stays' with
          | false => exact .leaves none past
          | true => exact absurd (stays rfl) Bool.false_ne_true

theorem FlowJoint.of_sublist (joint : fork.FlowJoint (held ++ base) (.goes ahead [] true) first second) :
    fork.FlowJoint base (.goes ahead held true) first second := by
  cases joint with
  | stays within sublist foresees => exact .stays within sublist foresees
  | failed same within sublist =>
      exact .failed same within ((List.sublist_append_right _ _).trans sublist)

theorem Past.onBuilder (past : fork.Past s t) {f : Builder → Builder}
    (depths : ∀ b c : Builder, b.depth = c.depth → (f b).depth = (f c).depth) :
    fork.Past (s.onBuilder f) (t.onBuilder f) :=
  ⟨past.rest_left, past.rest_right, depths _ _ past.depth,
    fun same => ⟨congrArg f (past.same same).1, (past.same same).2⟩⟩

theorem depth_close {b c : Builder} (depth : b.depth = c.depth) : b.close.depth = c.close.depth := by
  obtain ⟨top, below⟩ := b
  obtain ⟨top', below'⟩ := c
  cases below <;> cases below' <;> simp_all [Builder.depth, Builder.close]

theorem FlowJoint.close (joint : fork.FlowJoint base flow first second) :
    fork.FlowJoint base flow (first.andThen fun s => .ok (s.onBuilder Builder.close))
      (second.andThen fun s => .ok (s.onBuilder Builder.close)) := by
  cases joint with
  | stays within sublist foresees => exact .stays (within.onBuilder _) sublist foresees
  | leaves none past => exact .leaves none (past.onBuilder fun _ _ => depth_close)
  | failed same within sublist => exact .failed same within sublist

theorem head_of_foresight {role : Role} (within : fork.Within due s t)
    (foresees : Foresight.Holds (some role :: ahead) s.rest) (other : role ≠ .terminator) :
    ∃ token segment, token.kind.role = role ∧
      s.rest = token :: (segment ++ (fork.leftEnd ++ fork.left)) ∧
      t.rest = token :: (segment ++ (fork.rightEnd ++ fork.right)) ∧
      missingAfter due (token :: segment) = some [] ∧
      ahead.Holds (segment ++ (fork.leftEnd ++ fork.left)) := by
  have filled := fork.rest_length_left within
  cases rest : s.rest with
  | nil => simp [rest] at filled
  | cons token more =>
      rw [rest] at foresees
      have isRole := foresees.1 role rfl
      obtain ⟨segment, rfl, right, balanced⟩ := within.head rest (isRole ▸ other)
      exact ⟨token, segment, isRole, rfl, right, balanced, foresees.2⟩

theorem flowOfTake_joint (f : Token → Token) (safe : Rule.flowOfTake ahead held ≠ .astray)
    (within : fork.Within due s t) (sublist : (held ++ base).Sublist due)
    (foresees : ahead.Holds s.rest) :
    fork.FlowJoint base (Rule.flowOfTake ahead held) (.ok (s.takeAs f)) (.ok (t.takeAs f)) := by
  have taken : ∀ {due' : List Punct} {token : Token} {segment : List Token},
      s.rest = token :: (segment ++ (fork.leftEnd ++ fork.left)) →
      t.rest = token :: (segment ++ (fork.rightEnd ++ fork.right)) →
      missingAfter due' segment = some [] →
      fork.Within due' (s.takeAs f) (t.takeAs f) ∧
        (s.takeAs f).rest = segment ++ (fork.leftEnd ++ fork.left) := by
    intro due' token segment left right balanced
    simp only [State.takeAs, left, right]
    exact ⟨within.add balanced _ [], trivial⟩
  -- Only a known token that is no terminator may be taken. An opener adds its closer to those
  -- due, a closer takes away the one held last.
  rcases ahead with _ | ⟨_ | (closer | p | _ | _), more⟩
  · exact absurd rfl safe
  · exact absurd rfl safe
  · obtain ⟨token, segment, role, left, right, balanced, rest⟩ :=
      head_of_foresight within foresees (by simp)
    simp only [missingAfter, role] at balanced
    obtain ⟨within, ahead⟩ := taken left right balanced
    exact .stays within (sublist.cons_cons closer) (ahead ▸ rest)
  · obtain ⟨token, segment, role, left, right, balanced, rest⟩ :=
      head_of_foresight within foresees (by simp)
    simp only [Rule.flowOfTake] at safe ⊢
    split at safe
    · rename_i head
      rw [if_pos head]
      obtain ⟨held, rfl⟩ : ∃ rest, held = p :: rest := by
        cases held with
        | nil => simp at head
        | cons q held => exact ⟨held, by rw [Option.some.inj head]⟩
      obtain ⟨outer, rfl, closed⟩ := missingAfter_closing role balanced
      obtain ⟨within, ahead⟩ := taken left right closed
      exact .stays within (List.cons_sublist_cons.mp sublist) (ahead ▸ rest)
    · exact absurd rfl safe
  · exact absurd rfl safe
  · obtain ⟨token, segment, role, left, right, balanced, rest⟩ :=
      head_of_foresight within foresees (by simp)
    simp only [missingAfter, role] at balanced
    obtain ⟨within, ahead⟩ := taken left right balanced
    exact .stays within sublist (ahead ▸ rest)

theorem literal_joint (kind : NodeKind) (flavor : Flavor) {more : Foresight}
    (within : fork.Within due s t) (sublist : (held ++ base).Sublist due)
    (foresees : Foresight.Holds (some .plain :: more) s.rest) :
    fork.FlowJoint base (.goes more held true) (.ok (s.takeLiteral kind flavor))
      (.ok (t.takeLiteral kind flavor)) := by
  obtain ⟨token, segment, role, left, right, balanced, rest⟩ :=
    head_of_foresight within foresees (by simp)
  simp only [missingAfter, role] at balanced
  simp only [State.takeLiteral, left, right]
  exact .stays (within.add balanced _ _) sublist rest

theorem takeWhile_joint {look : Look} {all inside : Bool} (h : look.terminators? = some all)
    (hin : inside = true → base ≠ []) (within : fork.Within due s t)
    (sublist : (held ++ base).Sublist due) :
    ((inside || !held.isEmpty) = true → fork.FlowJoint base (.goes [] held true)
        (.ok (s.takeWhile look)) (.ok (t.takeWhile look))) ∧
      ((inside || !held.isEmpty) = false → all = true → fork.FlowJoint base (.goes [] [] false)
        (.ok (s.takeWhile look)) (.ok (t.takeWhile look))) := by
  rcases within.takeWhile h with ⟨within, -⟩ | ⟨rfl, past⟩
  · refine ⟨fun _ => .stays within sublist trivial, fun outside _ => ?_⟩
    obtain rfl : held = [] := by simpa using (Bool.or_eq_false_iff.mp outside).2
    exact .stays within sublist trivial
  · have none := List.sublist_nil.mp sublist
    obtain ⟨rfl, rfl⟩ := List.append_eq_nil_iff.mp none
    exact ⟨fun h => absurd rfl (hin (by simpa using h)), fun _ isAll => .leaves none (past isAll)⟩

theorem FlowJoint.bind {more more' : State → Outcome}
    (joint : fork.FlowJoint base (.goes [] held true) first second)
    (step : ∀ due s t, first = .ok s → second = .ok t → fork.Within due s t →
      (held ++ base).Sublist due → fork.FlowJoint base flow (more s) (more' t)) :
    fork.FlowJoint base flow (first.andThen more) (second.andThen more') := by
  cases joint with
  | stays within sublist _ => exact step _ _ _ rfl rfl within sublist
  | failed same within sublist => exact .failed same within sublist

theorem runSeparated_joint {go : Look} {item before after : State → Outcome}
    (inLine : go.staysInLine false = true)
    (ri : ∀ s, (item s).Reaches s) (rb : ∀ s, (before s).Reaches s) (ra : ∀ s, (after s).Reaches s)
    (hi : ∀ due s t, fork.Within due s t → (held ++ base).Sublist due → go.holds s.rest = true →
      fork.FlowJoint base (.goes [] held true) (item s) (item t))
    (hb : ∀ due s t, fork.Within due s t → (held ++ base).Sublist due →
      fork.FlowJoint base (.goes [] held true) (before s) (before t))
    (ha : ∀ due s t, fork.Within due s t → (held ++ base).Sublist due →
      fork.FlowJoint base (.goes [] held true) (after s) (after t))
    (rounds rounds' : Nat) {due : List Punct} {s t : State} (within : fork.Within due s t)
    (sublist : (held ++ base).Sublist due) (enough : s.rest.length < rounds)
    (enough' : t.rest.length < rounds') :
    fork.FlowJoint base (.goes [] held true)
      (Rule.runSeparated go item before after rounds s)
      (Rule.runSeparated go item before after rounds' t) := by
  induction rounds generalizing rounds' due s t with
  | zero => exact absurd enough (Nat.not_lt_zero _)
  | succ rounds ih =>
      obtain ⟨rounds', rfl⟩ := Nat.exists_eq_succ_of_ne_zero (Nat.ne_zero_of_lt enough')
      rw [Rule.runSeparated, Rule.runSeparated, within.holds_eq inLine]
      by_cases goes : go.holds s.rest = true
      · rw [if_pos goes, if_pos goes]
        refine (hi due s t within sublist goes).bind fun due₁ s₁ t₁ hs₁ ht₁ within₁ sublist₁ => ?_
        refine (hb due₁ s₁ t₁ within₁ sublist₁).bind fun due₂ s₂ t₂ hs₂ ht₂ within₂ sublist₂ => ?_
        have le₁ := Outcome.Reaches.length_le (ri s) hs₁
        have le₁' := Outcome.Reaches.length_le (ri t) ht₁
        have le₂ := Outcome.Reaches.length_le (rb s₁) hs₂
        have le₂' := Outcome.Reaches.length_le (rb t₁) ht₂
        rw [within₂.holds_eq rfl]
        by_cases comma : (Look.punct .comma).holds s₂.rest = true
        · rw [if_pos comma, if_pos comma]
          obtain ⟨token, segment, role, left, right, -⟩ :=
            head_of_foresight within₂ (Look.foresight_holds comma) (by simp [TokenKind.role, Punct.role])
          have plain : Foresight.Holds [some .plain] s₂.rest := Look.foresight_holds comma
          have taken := flowOfTake_joint id (by simp [Rule.flowOfTake]) within₂ sublist₂ plain
          have le₃ : (s₂.takeAs id).rest.length < s₂.rest.length := by simp [State.takeAs, left]
          have le₃' : (t₂.takeAs id).rest.length < t₂.rest.length := by simp [State.takeAs, right]
          cases taken with
          | stays within₃ sublist₃ _ =>
              refine (ha _ _ _ within₃ sublist₃).bind fun due₄ s₄ t₄ hs₄ ht₄ within₄ sublist₄ => ?_
              have le₄ := Outcome.Reaches.length_le (ra _) hs₄
              have le₄' := Outcome.Reaches.length_le (ra _) ht₄
              exact ih rounds' within₄ sublist₄ (by omega) (by omega)
        · rw [if_neg comma, if_neg comma]
          exact .stays within₂ sublist₂ trivial
      · rw [if_neg goes, if_neg goes]
        exact .stays within sublist trivial

section Run
variable {enter : Category → State → Outcome}

/-- Both runs of a rule go where its flow says. -/
theorem run_joint (reaches : ∀ category s, (enter category s).Reaches s)
    (he : ∀ category base due s t, fork.Within due s t → base.Sublist due →
      fork.FlowJoint base (.goes [] [] true) (enter category s) (enter category t))
    (rule : Rule) {inside : Bool} (safe : rule.flow inside ahead held ≠ .astray)
    (hin : inside = true → base ≠ []) (within : fork.Within due s t)
    (sublist : (held ++ base).Sublist due) (foresees : ahead.Holds s.rest) :
    fork.FlowJoint base (rule.flow inside ahead held) (rule.run enter s) (rule.run enter t) := by
  -- `held` are the brackets that the rule itself holds on top of `base`. A nested part of the
  -- grammar is run with all of them as its base.
  induction rule generalizing inside ahead held base due s t with
  | done => exact .stays within sublist foresees
  | report issue =>
      exact .stays (within.record fun same => (within.errorHere_eq same issue).symm) sublist foresees
  | announce => exact .stays (within.note _ _) sublist foresees
  | label | labelNext | retag => exact .stays (within.onBuilder _) sublist foresees
  | fail issue =>
      exact .failed (fun same => (within.errorHere_eq same issue).symm) within
        ((List.sublist_append_right _ _).trans sublist)
  | seq first second ih₁ ih₂ =>
      rw [Rule.flow] at safe ⊢
      have safe₁ : first.flow inside ahead held ≠ .astray := fun astray => safe (by rw [astray]; rfl)
      exact (ih₁ safe₁ hin within sublist foresees).andThen safe
        fun _ _ _ _ _ safe₂ within₂ sublist₂ foresees₂ => ih₂ safe₂ hin within₂ sublist₂ foresees₂
  | branch look yes no ih₁ ih₂ =>
      rw [Rule.flow] at safe ⊢
      split at safe
      · rename_i inLine
        rw [if_pos inLine, Rule.run, Rule.run, within.holds_eq inLine]
        by_cases holds : look.holds s.rest = true
        · rw [if_pos holds, if_pos holds]
          have weaker := Flow.weaker_join_left safe
          refine (ih₁ (fun astray => ?_) hin within sublist
            ((Look.foresight_holds holds).both foresees)).weaken weaker
          rw [astray] at weaker
          exact weaker
        · rw [if_neg holds, if_neg holds]
          have weaker := Flow.weaker_join_right safe
          refine (ih₂ (fun astray => ?_) hin within sublist foresees).weaken weaker
          rw [astray] at weaker
          exact weaker
      · exact absurd rfl safe
  | take => exact flowOfTake_joint id safe within sublist foresees
  | takeKeyword => exact flowOfTake_joint _ safe within sublist foresees
  | takeWhile look =>
      rw [Rule.flow] at safe ⊢
      split at safe
      · rename_i all h inner
        exact (takeWhile_joint h hin within sublist).1 inner
      · rename_i h outer
        exact (takeWhile_joint h hin within sublist).2 outer rfl
      · exact absurd rfl safe
  | literal kind flavor =>
      rw [Rule.flow] at safe ⊢
      split at safe
      · rename_i plain
        rw [if_pos plain]
        obtain ⟨more, rfl⟩ : ∃ more, ahead = some .plain :: more := by
          cases ahead with
          | nil => simp at plain
          | cons known more => exact ⟨more, by rw [Option.some.inj plain]⟩
        exact literal_joint kind flavor within sublist foresees
      · exact absurd rfl safe
  | node kind body ih =>
      have opened := within.onBuilder (Builder.startNode kind s.offset)
      have joint := (ih safe hin opened sublist foresees).close
      rw [Rule.run, Rule.run, within.offset_eq]
      exact joint
  | wrapLast kind body ih =>
      have opened := within.onBuilder (Builder.startAroundLast kind s.offset)
      have joint := (ih safe hin opened sublist foresees).close
      rw [Rule.run, Rule.run, within.offset_eq]
      exact joint
  | nested category => exact (he category (held ++ base) due s t within sublist).of_sublist
  | separated go item before after ih₁ ih₂ ih₃ =>
      rw [Rule.flow] at safe ⊢
      split at safe
      · rename_i parts
        rw [if_pos parts]
        simp only [Bool.and_eq_true] at parts
        obtain ⟨⟨⟨inLine, hi⟩, hb⟩, ha⟩ := parts
        exact runSeparated_joint inLine (Rule.run_reaches reaches item)
          (Rule.run_reaches reaches before) (Rule.run_reaches reaches after)
          (fun _ _ _ within sublist goes =>
            (ih₁ (Flow.safe_of_comesTo hi) hin within sublist (Look.foresight_holds goes)).comes hi)
          (fun _ _ _ within sublist =>
            (ih₂ (Flow.safe_of_comesTo hb) hin within sublist trivial).comes hb)
          (fun _ _ _ within sublist =>
            (ih₃ (Flow.safe_of_comesTo ha) hin within sublist trivial).comes ha)
          _ _ within sublist (Nat.lt_succ_self _) (Nat.lt_succ_self _)
      · exact absurd rfl safe
  -- Only the imports of a program recover outside of a loop, and they are followed on their own.
  | recovering sync item ih => exact absurd rfl safe
  | items stop sync item ih =>
      cases held with
      | nil => exact absurd rfl safe
      | cons p held =>
          simp only [Rule.flow] at safe ⊢
          split at safe
          · rename_i parts
            rw [if_pos parts]
            simp only [Bool.and_eq_true, beq_iff_eq] at parts
            -- The loop holds a bracket, so it cannot come to the end of the segment.
            obtain ⟨⟨⟨inLine, covers⟩, closer⟩, hi⟩ := parts
            have guards : ∀ q, (p :: held ++ base).head? = some q →
                sync.closer? = some q ∧ stop.covers (.punct q) = true := by
              intro q head
              obtain rfl : p = q := Option.some.inj head
              exact ⟨closer, covers⟩
            have alike := fork.runItems_joint _ _ inLine guards (Rule.run_reaches reaches item)
              (fun _ _ _ within sublist => ((ih (Flow.safe_of_comesTo hi) (fun _ => by simp) within
                sublist trivial).comes hi).endJoint)
              (s.rest.length + 1) (t.rest.length + 1) within sublist (Nat.lt_succ_self _)
              (Nat.lt_succ_self _)
            rcases alike with ⟨due', s', t', within', sublist', -, rfl, rfl⟩ | ⟨none, -⟩
            · exact .stays within' sublist' trivial
            · exact absurd none (by simp)
          · exact absurd rfl safe

end Run

theorem enterCategory_joint (levels : Nat) (category : Category) (base : List Punct)
    (due : List Punct) (s t : State) (within : fork.Within due s t) (sublist : base.Sublist due) :
    fork.FlowJoint base (.goes [] [] true) (enterCategory levels category s)
      (enterCategory levels category t) := by
  induction levels generalizing category base due s t with
  | zero => exact .failed (fun same => (within.errorHere_eq same _).symm) within sublist
  | succ levels ih =>
      have depth : t.depth = s.depth := congrArg Builder.depth within.builder
      have comes := Grammar.categoryRule_flow category
      rw [enterCategory, enterCategory, depth]
      split
      · exact .failed (fun same => (within.errorHere_eq same _).symm) within sublist
      · exact (run_joint (enterCategory_reaches levels) ih _ (Flow.safe_of_comesTo comes)
          (fun h => absurd h (by simp)) within sublist trivial).comes comes

theorem endJoint_of_flow {rule : Rule} {levels : Nat} {ahead' : Foresight} {stays : Bool}
    (eq : rule.flow false ahead [] = .goes ahead' [] stays) (within : fork.Within due s t)
    (sublist : base.Sublist due) (foresees : ahead.Holds s.rest) :
    fork.EndJoint base (rule.run (enterCategory levels) s) (rule.run (enterCategory levels) t) := by
  have safe : rule.flow false ahead [] ≠ .astray := by simp [eq]
  have joint := run_joint (enterCategory_reaches levels) (enterCategory_joint levels) rule safe
    (fun h => absurd h (by simp)) within sublist foresees
  rw [eq] at joint
  exact joint.endJoint

end Rules

end Fork

end UmkaSyntax
