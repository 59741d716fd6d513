import UmkaSyntax.Grammar.Rule
import UmkaSyntax.Parsing.Builder
import UmkaSyntax.Parsing.Event

namespace UmkaSyntax

structure State where
  rest : List Token
  endOfInput : Token
  builder : Builder
  errors : Array ParseError
  log : Array Event

namespace State

def current (s : State) : Token := s.rest.head?.getD s.endOfInput

def offset (s : State) : Nat := s.current.span.start

def depth (s : State) : Nat := s.builder.depth

def onBuilder (f : Builder → Builder) (s : State) : State := { s with builder := f s.builder }

def record (e : ParseError) (s : State) : State := { s with errors := s.errors.push e }

def note (event : Event) (s : State) : State := { s with log := s.log.push event }

def errorHere (issue : SyntaxIssue) (s : State) : SyntaxError := ⟨issue, s.current⟩

def takeAs (f : Token → Token) (s : State) : State :=
  match s.rest with
  | [] => s
  | t :: rest => { s with rest := rest, builder := s.builder.add (.token (f t)) }

def take : State → State := takeAs id

def asKeyword (t : Token) : Token := if t.kind = .name then { t with kind := .keyword } else t

def takeUpTo (look : Look) : Nat → State → State
  | 0, s => s
  | count + 1, s => if look.holds s.rest then takeUpTo look count s.take else s

def takeWhile (look : Look) (s : State) : State := takeUpTo look s.rest.length s

def recordLexical (errors : List LexicalError) (s : State) : State :=
  { s with errors := s.errors ++ errors.map ParseError.lexical }

def takeLiteral (kind : NodeKind) (flavor : Flavor) (s : State) : State :=
  match s.rest with
  | [] => s
  | t :: rest =>
      let literal := LiteralParts.ofToken flavor t
      let node := literal.toNode kind t.span.start
      { s with rest := rest, builder := s.builder.add (.node node) }.recordLexical literal.errors

/-- A token that the grammar could not use, and the errors inside it. Literals keep their shape. -/
def salvage (t : Token) : Child × List LexicalError :=
  let split (kind : NodeKind) : Child × List LexicalError :=
    let literal := LiteralParts.ofToken .plain t
    (Child.node (literal.toNode kind t.span.start), literal.errors)
  match t.kind with
  | .string _ => split .stringLiteral
  | .character _ => split .charLiteral
  | _ => (.token t, [])

/-- Moves the next `count` tokens into an error node. Without tokens there is no node. -/
def discard (count : Nat) (s : State) : State :=
  let salvaged := (s.rest.take count).map salvage
  if salvaged.isEmpty then s
  else
    let node := Node.ofChildren .error (salvaged.map (·.1)) [] s.offset
    let taken := { s with rest := s.rest.drop count, builder := s.builder.add (.node node) }
    taken.recordLexical (salvaged.flatMap (·.2))

def opens (t : Token) : Bool := match t.kind with | .punct p => p.opens | _ => false

def closes (t : Token) : Bool := match t.kind with | .punct p => p.closes | _ => false

/-- The number of tokens before the first one that stops the skipping. Tokens inside of brackets
never stop it; `depth` brackets are open. -/
def skipLength (stop : Look) : Nat → List Token → Nat
  | _, [] => 0
  | 0, t :: more =>
      if stop.holds (t :: more) then 0
      else skipLength stop (if opens t then 1 else 0) more + 1
  | depth + 1, t :: more =>
      let inside := if opens t then depth + 2 else if closes t then depth else depth + 1
      skipLength stop inside more + 1

/-- Closes the nodes opened since `depth` and skips to where the parse can resume. -/
def recover (e : SyntaxError) (depth : Nat) (sync : SyncSet) (s : State) : State :=
  let s := (s.record (.syntactic e)).onBuilder (Builder.closeTo depth)
  let count := skipLength sync.look 0 s.rest
  let s := s.discard count
  if count = 0 then s else s.note (.skipped count s.offset)

def skipStuck (s : State) : State := (s.note (.stuck s.offset)).discard 1

end State

end UmkaSyntax
