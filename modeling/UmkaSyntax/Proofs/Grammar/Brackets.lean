import UmkaSyntax.Grammar.Declaration
import UmkaSyntax.Token.Basic

namespace UmkaSyntax

inductive Role
  | opening (closer : Punct)
  | closing (p : Punct)
  | terminator
  | plain
  deriving DecidableEq

def Punct.role : Punct → Role
  | leftBrace => .opening rightBrace
  | leftParen => .opening rightParen
  | leftBracket => .opening rightBracket
  | rightBrace => .closing rightBrace
  | rightParen => .closing rightParen
  | rightBracket => .closing rightBracket
  | _ => .plain

def TokenKind.role : TokenKind → Role
  | punct p => p.role
  | semicolon | newline => .terminator
  | _ => .plain

/-- The closers that are still missing after the tokens, innermost first. There are none if a
closer stands where another one is due. -/
def missingAfter : List Punct → List Token → Option (List Punct)
  | due, [] => some due
  | due, t :: more =>
      match t.kind.role with
      | .opening closer => missingAfter (closer :: due) more
      | .closing p =>
          match due with
          | first :: due => if first = p then missingAfter due more else none
          | [] => none
      | _ => missingAfter due more

def Balanced (tokens : List Token) : Prop := missingAfter [] tokens = some []

instance (tokens : List Token) : Decidable (Balanced tokens) := inferInstanceAs (Decidable (_ = _))

theorem missingAfter_append (due : List Punct) (left right : List Token) :
    missingAfter due (left ++ right) =
      (missingAfter due left).bind fun due => missingAfter due right := by
  induction left generalizing due with
  | nil => rfl
  | cons t left ih =>
      rw [List.cons_append, missingAfter, missingAfter]
      split
      · exact ih _
      · split
        · split
          · exact ih _
          · rfl
        · rfl
      · exact ih _

theorem missingAfter_closing {due missing : List Punct} {t : Token} {more : List Token} {p : Punct}
    (role : t.kind.role = .closing p) (balanced : missingAfter due (t :: more) = some missing) :
    ∃ outer, due = p :: outer ∧ missingAfter outer more = some missing := by
  simp only [missingAfter, role] at balanced
  cases due with
  | nil => exact absurd balanced (by simp)
  | cons q outer =>
      simp only at balanced
      split at balanced
      · rename_i same
        exact ⟨outer, by rw [same], balanced⟩
      · exact absurd balanced (by simp)

theorem missingAfter_terminators {tokens : List Token}
    (terminators : ∀ t ∈ tokens, t.kind.role = .terminator) (due : List Punct) :
    missingAfter due tokens = some due := by
  induction tokens with
  | nil => rfl
  | cons t tokens ih =>
      simp only [missingAfter, terminators t List.mem_cons_self]
      exact ih fun u mem => terminators u (List.mem_cons_of_mem t mem)

theorem missingAfter_of_kinds {tokens tokens' : List Token}
    (kinds : tokens.map (·.kind) = tokens'.map (·.kind)) (due : List Punct) :
    missingAfter due tokens = missingAfter due tokens' := by
  induction tokens generalizing tokens' due with
  | nil =>
      obtain rfl := List.map_eq_nil_iff.mp kinds.symm
      rfl
  | cons t tokens ih =>
      cases tokens' with
      | nil => exact absurd kinds (by simp)
      | cons t' tokens' =>
          obtain ⟨same, kinds⟩ := List.cons.inj kinds
          simp only [missingAfter, same, ih kinds]

abbrev Foresight := List (Option Role)

namespace Foresight

def both : Foresight → Foresight → Foresight
  | [], known => known
  | known, [] => known
  | a :: as, b :: bs => a.or b :: both as bs

def either : Foresight → Foresight → Foresight
  | a :: as, b :: bs => (if a = b then a else none) :: either as bs
  | _, _ => []

def Holds : Foresight → List Token → Prop
  | known :: more, t :: tokens => (∀ role, known = some role → t.kind.role = role) ∧ Holds more tokens
  | _, _ => True

theorem Holds.both {a b : Foresight} {tokens : List Token} (ha : a.Holds tokens)
    (hb : b.Holds tokens) : (Foresight.both a b).Holds tokens := by
  induction a generalizing b tokens with
  | nil => exact hb
  | cons known a ih =>
      cases b with
      | nil => exact ha
      | cons known' b =>
          cases tokens with
          | nil => trivial
          | cons t tokens =>
              refine ⟨fun role eq => ?_, ih ha.2 hb.2⟩
              cases known with
              | none => exact hb.1 role eq
              | some role' => exact ha.1 role eq

theorem Holds.either {a b : Foresight} {tokens : List Token}
    (holds : a.Holds tokens ∨ b.Holds tokens) : (Foresight.either a b).Holds tokens := by
  induction a generalizing b tokens with
  | nil => trivial
  | cons known a ih =>
      cases b with
      | nil => trivial
      | cons known' b =>
          cases tokens with
          | nil => trivial
          | cons t tokens =>
              refine ⟨fun role eq => ?_, ih (holds.imp And.right And.right)⟩
              split at eq
              · rename_i same
                exact holds.elim (fun h => h.1 role eq) fun h => h.1 role (same ▸ eq)
              · exact absurd eq (by simp)

end Foresight

namespace Look

def foresight : Look → Foresight
  | kind k => [some k.role]
  | keyword _ | builtin _ => [some .plain]
  | next look => none :: look.foresight
  | both a b => a.foresight.both b.foresight
  | either a b => a.foresight.either b.foresight
  | always | not _ => []

theorem foresight_holds {look : Look} {tokens : List Token} (holds : look.holds tokens = true) :
    look.foresight.Holds tokens := by
  induction look generalizing tokens with
  | always | not => trivial
  | kind k =>
      cases tokens with
      | nil => trivial
      | cons t tokens =>
          have eq : t.kind = k := by simpa [Look.holds] using holds
          exact ⟨fun role known => eq ▸ Option.some.inj known, trivial⟩
  | keyword | builtin =>
      cases tokens with
      | nil => trivial
      | cons t tokens =>
          have name : t.kind = .name := by
            simp only [Look.holds, List.head?_cons, Option.any_some, Bool.and_eq_true] at holds
            exact eq_of_beq holds.1
          exact ⟨fun role known => name ▸ Option.some.inj known, trivial⟩
  | next look ih =>
      cases tokens with
      | nil => trivial
      | cons t tokens => exact ⟨fun role known => absurd known (by simp), ih holds⟩
  | both a b iha ihb =>
      have parts := Bool.and_eq_true_iff.mp holds
      exact (iha parts.1).both (ihb parts.2)
  | either a b iha ihb =>
      exact .either ((Bool.or_eq_true_iff.mp holds).imp iha ihb)

def refusesTerminators (look : Look) : Bool :=
  match look.foresight with
  | some role :: _ => role != .terminator
  | _ => false

theorem not_terminator {look : Look} (refuses : look.refusesTerminators = true) {t : Token}
    {more : List Token} (holds : look.holds (t :: more) = true) : t.kind.role ≠ .terminator := by
  have roles := foresight_holds holds
  unfold refusesTerminators at refuses
  split at refuses
  · rename_i role _ eq
    rw [eq] at roles
    rw [roles.1 role rfl]
    simpa using refuses
  · exact absurd refuses (by simp)

/-- Whether the test never looks past a terminator; `guarded` if the current token is none. -/
def staysInLine (guarded : Bool) : Look → Bool
  | always | kind _ | keyword _ | builtin _ => true
  | next look => guarded && look.staysInLine false
  | both a b => a.staysInLine guarded && b.staysInLine (guarded || a.refusesTerminators)
  | either a b => a.staysInLine guarded && b.staysInLine guarded
  | not look => look.staysInLine guarded

def terminators? : Look → Option Bool
  | either (kind .semicolon) (kind .newline) => some true
  | kind .newline => some false
  | _ => none

theorem terminators?_terminator : terminator.terminators? = some true := rfl

def covers (k : TokenKind) : Look → Bool
  | always => true
  | kind k' => k' == k
  | either a b => a.covers k || b.covers k
  | _ => false

theorem holds_of_covers {look : Look} {t : Token} (covers : look.covers t.kind = true)
    (more : List Token) : look.holds (t :: more) = true := by
  induction look with
  | always => rfl
  | kind k => exact beq_iff_eq.mpr (beq_iff_eq.mp covers).symm
  | either a b iha ihb =>
      exact Bool.or_eq_true_iff.mpr ((Bool.or_eq_true_iff.mp covers).imp iha ihb)
  | keyword | builtin | next | both | not => exact absurd covers (by simp [Look.covers])

end Look

inductive Flow
  | astray
  | stops
  /-- What is known ahead, the closers due since the start, and whether it stays in the segment;
  if it leaves the segment, it does so at the end. -/
  | goes (ahead : Foresight) (due : List Punct) (stays : Bool)
  deriving DecidableEq

namespace Flow

def andThen (flow : Flow) (next : Foresight → List Punct → Flow) : Flow :=
  match flow with
  | goes ahead due true => next ahead due
  | goes _ _ false => astray
  | flow => flow

def join : Flow → Flow → Flow
  | astray, _ | _, astray => astray
  | stops, flow | flow, stops => flow
  | goes a due s, goes a' due' s' => if due = due' then goes (a.either a') due (s && s') else astray

def Weaker : Flow → Flow → Prop
  | goes ahead due stays, goes ahead' due' stays' =>
      due = due' ∧ (∀ tokens, ahead.Holds tokens → ahead'.Holds tokens) ∧ (stays' = true → stays = true)
  | stops, _ => True
  | _, _ => False

theorem weaker_join_left {a b : Flow} (safe : a.join b ≠ astray) : a.Weaker (a.join b) := by
  cases a with
  | astray => exact absurd rfl safe
  | stops => trivial
  | goes ahead due stays =>
      cases b with
      | astray => exact absurd rfl safe
      | stops => exact ⟨rfl, fun _ holds => holds, id⟩
      | goes ahead' due' stays' =>
          rw [join] at safe ⊢
          split at safe
          · rename_i same
            rw [if_pos same]
            exact ⟨rfl, fun _ holds => .either (.inl holds), fun h => (Bool.and_eq_true_iff.mp h).1⟩
          · exact absurd rfl safe

theorem weaker_join_right {a b : Flow} (safe : a.join b ≠ astray) : b.Weaker (a.join b) := by
  cases b with
  | astray => cases a <;> exact absurd rfl safe
  | stops => trivial
  | goes ahead due stays =>
      cases a with
      | astray => exact absurd rfl safe
      | stops => exact ⟨rfl, fun _ holds => holds, id⟩
      | goes ahead' due' stays' =>
          rw [join] at safe ⊢
          split at safe
          · rename_i same
            rw [if_pos same]
            exact ⟨same.symm, fun _ holds => .either (.inr holds),
              fun h => (Bool.and_eq_true_iff.mp h).2⟩
          · exact absurd rfl safe

def comesTo (due : List Punct) : Flow → Bool
  | goes _ due' stays => due' == due && stays
  | _ => false

theorem safe_of_comesTo {flow : Flow} {due : List Punct} (comes : flow.comesTo due = true) :
    flow ≠ astray := by
  rintro rfl
  exact absurd comes (by simp [comesTo])

end Flow

def SyncSet.closer? : SyncSet → Option Punct
  | topLevel => none
  | block => some .rightBrace
  | group => some .rightParen

theorem SyncSet.look_staysInLine (sync : SyncSet) : sync.look.staysInLine false = true := by
  cases sync <;> rfl

theorem SyncSet.look_covers_terminator (sync : SyncSet) {k : TokenKind}
    (role : k.role = .terminator) : sync.look.covers k = true := by
  cases k with
  | semicolon | newline => cases sync <;> rfl
  | punct p => cases p <;> exact absurd role (by decide)
  | _ => exact absurd role (by simp [TokenKind.role])

theorem SyncSet.look_covers_closer {sync : SyncSet} {p : Punct} (closer : sync.closer? = some p) :
    sync.look.covers (.punct p) = true := by
  cases sync with
  | topLevel => exact absurd closer (by simp [closer?])
  | block | group =>
      obtain rfl := Option.some.inj closer
      rfl

namespace Rule

def flowOfTake (ahead : Foresight) (due : List Punct) : Flow :=
  match ahead with
  | some (.opening closer) :: more => .goes more (closer :: due) true
  | some (.closing p) :: more => if due.head? = some p then .goes more due.tail true else .astray
  | some .plain :: more => .goes more due true
  | _ => .astray

/-- Where the rule leads; `inside` if some closer was due before it started. -/
def flow (inside : Bool) : Rule → Foresight → List Punct → Flow
  | done, ahead, due | report _, ahead, due | announce, ahead, due | label _, ahead, due
  | labelNext _, ahead, due | retag _, ahead, due => .goes ahead due true
  | fail _, _, _ => .stops
  | seq first second, ahead, due => (first.flow inside ahead due).andThen (second.flow inside)
  | branch look yes no, ahead, due =>
      if look.staysInLine false then
        (yes.flow inside (look.foresight.both ahead) due).join (no.flow inside ahead due)
      else .astray
  | take, ahead, due | takeKeyword, ahead, due => flowOfTake ahead due
  | literal _ _, ahead, due =>
      if ahead.head? = some (some .plain) then .goes ahead.tail due true else .astray
  | takeWhile look, _, due =>
      match look.terminators?, inside || !due.isEmpty with
      | some _, true => .goes [] due true
      | some true, false => .goes [] [] false
      | _, _ => .astray
  | node _ body, ahead, due | wrapLast _ body, ahead, due => body.flow inside ahead due
  | nested _, _, due => .goes [] due true
  | separated go item before after, _, due =>
      if go.staysInLine false && (item.flow inside go.foresight due).comesTo due &&
          (before.flow inside [] due).comesTo due && (after.flow inside [] due).comesTo due then
        .goes [] due true
      else .astray
  | recovering _ _, _, _ => .astray
  | items stop sync item, _, due =>
      match due with
      | p :: _ =>
          if stop.staysInLine false && stop.covers (.punct p) && sync.closer? == some p &&
              (item.flow true [] []).comesTo [] then .goes [] due true
          else .astray
      | [] => .astray

end Rule

namespace Grammar

/-- Types, expressions and blocks close the brackets that they open. -/
theorem categoryRule_flow (category : Category) :
    ((categoryRule category).flow false [] []).comesTo [] = true := by
  cases category <;> decide

theorem declaration_flow : ∃ ahead stays, declaration.flow false [] [] = .goes ahead [] stays :=
  ⟨_, _, rfl⟩

theorem statement_flow : ∃ ahead stays, statement.flow false [] [] = .goes ahead [] stays :=
  ⟨_, _, rfl⟩

theorem imports_flow :
    ∃ ahead stays, imports.flow false (Look.keyword .imports).foresight [] = .goes ahead [] stays :=
  ⟨_, _, rfl⟩

end Grammar

end UmkaSyntax
