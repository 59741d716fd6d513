import Mathlib.Data.List.Basic
import UmkaSyntax.CommandLine.Options

namespace UmkaSyntax.CommandLine

def Format.name : Format → String
  | human => "human"
  | json => "json"
  | sExpression => "sexp"

structure FileName where
  text : String
  plain : "--".toList.isPrefixOf text.toList = false

inductive Argument
  | file (name : FileName)
  | format (value : Format)
  | json
  | noColour
  | maxErrors (limit : Nat)

namespace Argument

def words : Argument → List String
  | file name => [name.text]
  | format value => ["--format", value.name]
  | json => ["--json"]
  | noColour => ["--no-color"]
  | maxErrors limit => ["--max-errors", toString limit]

def file? : Argument → Option String
  | file name => some name.text
  | _ => none

def limit? : Argument → Option Nat
  | maxErrors limit => some limit
  | _ => none

def apply (sofar : Options) : Argument → Options
  | file name => { sofar with files := sofar.files ++ [name.text] }
  | format value => { sofar with format := some value }
  | json => { sofar with format := some .json }
  | noColour => { sofar with colours := false }
  | maxErrors limit => { sofar with maxErrors := limit }

end Argument

def filesOf (args : List Argument) : List String := args.filterMap Argument.file?

def limitsOf (args : List Argument) : List Nat := args.filterMap Argument.limit?

theorem decimalValue_toDigits (n : Nat) : decimalValue (Nat.toDigits 10 n) = n :=
  Nat.ofDigitChars_toDigits (by decide) (by decide)

theorem number?_toString (n : Nat) :
    number? (toString n) = if n < UInt64.size then some n else none := by
  have letters : (toString n).toList = Nat.toDigits 10 n := String.toList_ofList
  have value := decimalValue_toDigits n
  have digits : ∀ c ∈ Nat.toDigits 10 n, c.isDigit = true := fun _ mem =>
    Nat.isDigit_of_mem_toDigits (by decide) (by decide) mem
  rw [← letters] at value digits
  have all : (toString n).toList.all Char.isDigit = true := List.all_eq_true.mpr digits
  unfold number?
  split
  · rename_i more eq
    rw [eq] at digits
    exact absurd (digits '+' List.mem_cons_self) (by decide)
  · have some : (toString n).toList.isEmpty = false := by
      rw [letters]
      exact List.isEmpty_eq_false_iff.mpr Nat.toDigits_ne_nil
    simp only [some, all, value]
    rfl

namespace Options

theorem read_file (name : FileName) (sofar : Options) (rest : List String) :
    sofar.read (name.text :: rest) = ((Argument.file name).apply sofar).read rest := by
  have plain := name.plain
  rw [read.eq_def]
  split
  case h_1 eq => cases eq
  case h_2 eq | h_3 eq | h_4 eq | h_5 eq =>
    rw [(List.cons.inj eq).1] at plain
    exact absurd plain (by decide)
  case h_6 eq =>
    obtain ⟨rfl, rfl⟩ := List.cons.inj eq
    rw [plain]
    rfl

theorem read_step {arg : Argument} (fits : ∀ n ∈ arg.limit?, n < UInt64.size) (sofar : Options)
    (rest : List String) : sofar.read (arg.words ++ rest) = (arg.apply sofar).read rest := by
  cases arg with
  | file name => exact read_file name sofar rest
  | format value => cases value <;> rfl
  | json => rfl
  | noColour => rfl
  | maxErrors limit =>
      have number := number?_toString limit
      rw [if_pos (fits limit rfl)] at number
      simp only [Argument.words, List.cons_append, List.nil_append, read, number]
      rfl

theorem read_excess {limit : Nat} (excess : UInt64.size ≤ limit) (sofar : Options)
    (rest : List String) :
    ∃ failure, sofar.read ((Argument.maxErrors limit).words ++ rest) = .error failure := by
  have number := number?_toString limit
  rw [if_neg (Nat.not_lt.mpr excess)] at number
  simp only [Argument.words, List.cons_append, List.nil_append, read, number]
  exact ⟨_, rfl⟩

theorem read_words {args : List Argument} (fits : ∀ n ∈ limitsOf args, n < UInt64.size)
    (sofar : Options) :
    sofar.read (args.flatMap Argument.words) = .ok (args.foldl Argument.apply sofar) := by
  induction args generalizing sofar with
  | nil => rfl
  | cons arg args ih =>
      have first : ∀ n ∈ arg.limit?, n < UInt64.size := fun n mem =>
        fits n (List.mem_filterMap.mpr ⟨arg, List.mem_cons_self, mem⟩)
      have later : ∀ n ∈ limitsOf args, n < UInt64.size := fun n mem =>
        fits n ((List.sublist_cons_self arg args).filterMap _ |>.mem mem)
      rw [List.flatMap_cons, read_step first, ih later, List.foldl_cons]

theorem read_words_excess {args : List Argument} {limit : Nat} (mem : limit ∈ limitsOf args)
    (excess : UInt64.size ≤ limit) (sofar : Options) :
    ∃ failure, sofar.read (args.flatMap Argument.words) = .error failure := by
  induction args generalizing sofar with
  | nil => simp [limitsOf] at mem
  | cons arg args ih =>
      rw [List.flatMap_cons]
      by_cases first : ∀ n ∈ arg.limit?, n < UInt64.size
      · rw [read_step first]
        apply ih
        obtain ⟨other, isOther, eq⟩ := List.mem_filterMap.mp mem
        rcases List.mem_cons.mp isOther with rfl | later
        · exact absurd (first limit eq) (Nat.not_lt.mpr excess)
        · exact List.mem_filterMap.mpr ⟨other, later, eq⟩
      · cases arg with
        | maxErrors n =>
            refine read_excess (Nat.le_of_not_lt fun fits => first ?_) sofar _
            rintro _ ⟨⟩
            exact fits
        | file | format | json | noColour => exact absurd (by simp [Argument.limit?]) first

theorem files_foldl (args : List Argument) (sofar : Options) :
    (args.foldl Argument.apply sofar).files = sofar.files ++ filesOf args := by
  induction args generalizing sofar with
  | nil => simp [filesOf]
  | cons arg args ih =>
      rw [List.foldl_cons, ih]
      cases arg <;> simp [Argument.apply, filesOf, Argument.file?, List.filterMap_cons]

theorem maxErrors_foldl (args : List Argument) (sofar : Options) :
    (args.foldl Argument.apply sofar).maxErrors =
      (limitsOf args).getLast?.getD sofar.maxErrors := by
  induction args generalizing sofar with
  | nil => rfl
  | cons arg args ih =>
      rw [List.foldl_cons, ih]
      cases arg <;>
        simp [Argument.apply, limitsOf, Argument.limit?, List.filterMap_cons, List.getLast?_cons]

end Options

end UmkaSyntax.CommandLine
