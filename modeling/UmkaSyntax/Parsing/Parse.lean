import UmkaSyntax.Lexing.Stream
import UmkaSyntax.Parsing.Run

namespace UmkaSyntax

structure Parsed where
  root : Node
  errors : List ParseError
  log : List Event

def defaultMaxErrors : Nat := 100

namespace Entry

def rootKind : Entry → NodeKind
  | program => .program
  | type | expression => .fragment

def rule : Entry → Rule
  | program => Grammar.program
  | type => Rule.inOrder [Rule.terminators, Rule.type]
  | expression => Rule.inOrder [Rule.terminators, Rule.expression]

def announcement (bytes : Nat) : Entry → List Event
  | program => []
  | type => [.readingType bytes]
  | expression => [.readingExpression bytes]

end Entry

namespace State

def initial (root : NodeKind) (stream : TokenStream) : State :=
  let start := stream.tokens.head?.getD stream.endOfInput
  { rest := stream.tokens
    endOfInput := stream.endOfInput
    builder := ⟨OpenNode.empty root start.span.start, []⟩
    errors := #[]
    log := #[] }

def closeToRoot (s : State) : State := s.onBuilder (Builder.closeTo 1)

/-- Discards the tokens that are left after the end of a fragment, with an error if the fragment
itself had none. -/
def finish : Outcome → State
  | .ok s =>
      let s := s.closeToRoot.takeWhile .terminator
      let s := if s.rest.isEmpty then s else s.record (.syntactic (s.errorHere .trailing))
      s.discard s.rest.length
  | .failed e s =>
      let s := (s.record (.syntactic e)).closeToRoot.takeWhile .terminator
      s.discard s.rest.length

def root (s : State) : Node := (s.builder.top.add (.token s.endOfInput)).toNode

end State

def parseStream (entry : Entry) (stream : TokenStream) : State :=
  State.finish (entry.rule.runWhole (State.initial entry.rootKind stream))

def parse (entry : Entry) (maxErrors : Nat) (source : String) : Parsed :=
  let stream := TokenStream.ofText source.toList
  let s := parseStream entry stream
  let errors := ParseError.sortByStart (stream.errors.map .lexical ++ s.errors.toList)
  let dropped := errors.length - maxErrors
  { root := s.root
    errors := errors.take maxErrors
    log := [.lexed stream.toList.length stream.errors.length] ++
      entry.announcement source.utf8ByteSize ++ s.log.toList ++
      if dropped = 0 then [] else [.dropped dropped maxErrors] }

end UmkaSyntax
