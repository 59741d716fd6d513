import UmkaSyntax.CommandLine.Commands
import UmkaSyntax.Proofs.CommandLine.Arguments
import UmkaSyntax.Proofs.Error.Order

/-!
The verdict of the command line on files: the exit status of `check` and `parse`, and what it
depends on. A limit of zero drops every error before the verdict is given.
-/

namespace UmkaSyntax.CommandLine

def Passes (disk : Disk) (path : String) : Prop :=
  ∃ source, disk path = .ok source ∧ unlimitedErrors .program source = []

def PassesWithin (limit : Nat) (disk : Disk) (path : String) : Prop :=
  ∃ source, disk path = .ok source ∧ (limit = 0 ∨ unlimitedErrors .program source = [])

theorem Output.status_inOrder {outputs : List Output} :
    (inOrder outputs).status = 0 ↔ ∀ output ∈ outputs, output.status = 0 := by
  induction outputs with
  | nil => simp [inOrder, nothing]
  | cons first outputs ih =>
      have both : (inOrder (first :: outputs)).status =
          max first.status (inOrder outputs).status := rfl
      rw [both, Nat.max_eq_zero_iff, ih, List.forall_mem_cons]

section
variable {disk : Disk} {format : Format} {limit : Nat} {path source : String}

theorem diagnostics_isEmpty :
    (diagnostics source.toList (parse .program limit source).errors).isEmpty = true ↔
      limit = 0 ∨ unlimitedErrors .program source = [] := by
  have errors : (parse .program limit source).errors =
      (unlimitedErrors .program source).take limit := rfl
  rw [errors, diagnostics, List.isEmpty_iff, List.map_eq_nil_iff, List.take_eq_nil_iff]

theorem checkFile_status : (checkFile format limit path source).status = 0 ↔
    limit = 0 ∨ unlimitedErrors .program source = [] := by
  rw [← diagnostics_isEmpty]
  unfold checkFile
  dsimp only
  cases clean : (diagnostics source.toList (parse .program limit source).errors).isEmpty with
  | true =>
      split <;>
        simp [Output.status_inOrder, printReport, Output.print, Output.nothing]
  | false =>
      split <;>
        simp [Output.status_inOrder, printReport, printDiagnostics, Output.print, Output.complain,
          Output.fail]

theorem parseFile_status : (parseFile format limit path source).status = 0 ↔
    limit = 0 ∨ unlimitedErrors .program source = [] := by
  rw [← diagnostics_isEmpty]
  unfold parseFile
  dsimp only
  cases clean : (diagnostics source.toList (parse .program limit source).errors).isEmpty with
  | true => cases format <;> simp [printReport, Output.print]
  | false => cases format <;> simp [Output.status_inOrder, Output.fail]

theorem onFile_status {command : String → String → Output}
    (verdict : ∀ source, (command path source).status = 0 ↔
      limit = 0 ∨ unlimitedErrors .program source = []) :
    (onFile disk command path).status = 0 ↔ PassesWithin limit disk path := by
  unfold onFile PassesWithin
  split
  · rename_i failure eq
    simp [unreadable, Output.status_inOrder, Output.fail, eq]
  · rename_i source eq
    rw [verdict, eq]
    simp

theorem checkFiles_status {paths : List String} :
    (checkFiles disk format limit paths).status = 0 ↔
      ∀ path ∈ paths, PassesWithin limit disk path := by
  induction paths with
  | nil => simp [checkFiles, Output.nothing]
  | cons path paths ih =>
      rw [List.forall_mem_cons, ← ih, checkFiles]
      split
      · rename_i failure eq
        simp [unreadable, Output.status_inOrder, Output.fail, PassesWithin, eq]
      · rename_i source eq
        have both : ((checkFile format limit path source).andThen
            (checkFiles disk format limit paths)).status =
          max (checkFile format limit path source).status
            (checkFiles disk format limit paths).status := rfl
        have own : PassesWithin limit disk path ↔
            limit = 0 ∨ unlimitedErrors .program source = [] := by
          simp [PassesWithin, eq]
        rw [both, Nat.max_eq_zero_iff, checkFile_status, own]

end

inductive FileCommand
  | parse | check

namespace FileCommand

def word : FileCommand → String
  | parse => "parse"
  | check => "check"

def Takes : FileCommand → List String → Prop
  | parse, files => files.length = 1
  | check, files => files ≠ []

theorem Takes.ne_nil {command : FileCommand} {files : List String} (takes : command.Takes files) :
    files ≠ [] := by
  cases command with
  | parse =>
      rintro rfl
      cases takes
  | check => exact takes

theorem Takes.perm {command : FileCommand} {files others : List String}
    (takes : command.Takes files) (same : others.Perm files) : command.Takes others := by
  cases command with
  | parse => exact same.length_eq.trans takes
  | check =>
      rintro rfl
      exact takes same.symm.eq_nil

end FileCommand

theorem runCommand_status {disk : Disk} {command : FileCommand} {options : Options}
    (takes : command.Takes options.files) :
    (runCommand disk options command.word).status = 0 ↔
      ∀ path ∈ options.files, PassesWithin options.maxErrors disk path := by
  cases command with
  | parse =>
      obtain ⟨path, files⟩ := List.length_eq_one_iff.mp takes
      have command : runCommand disk options FileCommand.parse.word =
          withOne options "parse <file> [--format sexp|json]"
            (onFile disk (parseFile (options.format.getD .sExpression) options.maxErrors)) := rfl
      rw [command, withOne, files, List.forall_mem_singleton]
      exact onFile_status fun _ => parseFile_status
  | check =>
      have some : options.files.isEmpty = false := List.isEmpty_eq_false_iff.mpr takes
      have command : runCommand disk options FileCommand.check.word =
          if options.files.isEmpty then usage "check <file>... [--format human|json] [--no-color]"
          else checkFiles disk (options.format.getD .human) options.maxErrors options.files := rfl
      rw [command, some]
      exact checkFiles_status

/-- The verdict of a command line: every limit must be a number of the machine, and a file passes
if the last limit, when there is one, leaves nothing of its errors. -/
theorem run_status {command : FileCommand} {args : List Argument}
    (takes : command.Takes (filesOf args)) (disk : Disk) (environment : String → Option String) :
    (run disk environment (command.word :: args.flatMap Argument.words)).status = 0 ↔
      (∀ n ∈ limitsOf args, n < UInt64.size) ∧
        ∀ path ∈ filesOf args,
          PassesWithin ((limitsOf args).getLast?.getD defaultMaxErrors) disk path := by
  let initial := Options.initial (coloursAsked environment)
  by_cases fits : ∀ n ∈ limitsOf args, n < UInt64.size
  · have read := Options.read_words fits initial
    have files := Options.files_foldl args initial
    have limit := Options.maxErrors_foldl args initial
    have takes' : command.Takes (args.foldl Argument.apply initial).files := by
      rw [files]
      exact takes
    have command' : (run disk environment (command.word :: args.flatMap Argument.words)).status =
        (runCommand disk (args.foldl Argument.apply initial) command.word).status := by
      simp only [run, initial] at read ⊢
      rw [read]
      rfl
    rw [command', runCommand_status takes', files, limit]
    exact (and_iff_right fits).symm
  · refine iff_of_false ?_ fun both => fits both.1
    simp only [not_forall, Nat.not_lt] at fits
    obtain ⟨limit, mem, excess⟩ := fits
    obtain ⟨failure, read⟩ := Options.read_words_excess mem excess initial
    simp only [run, initial] at read ⊢
    rw [read]
    simp [Output.finish, Output.inOrder, Output.andThen, Output.fail]

structure Invocation where
  command : FileCommand
  arguments : List Argument
  takes : command.Takes (filesOf arguments)

namespace Invocation

def files (invocation : Invocation) : List String := filesOf invocation.arguments

def limits (invocation : Invocation) : List Nat := limitsOf invocation.arguments

/-- In whatever order the arguments stand, the command succeeds if and only if every file passes. -/
def Judges (invocation : Invocation) : Prop :=
  ∀ order : List Argument, order.Perm invocation.arguments → ∀ disk environment,
    (run disk environment (invocation.command.word :: order.flatMap Argument.words)).status = 0 ↔
      ∀ path ∈ invocation.files, Passes disk path

variable {invocation : Invocation} {order : List Argument}

theorem run_order (same : order.Perm invocation.arguments) (disk : Disk)
    (environment : String → Option String) :
    (run disk environment (invocation.command.word :: order.flatMap Argument.words)).status = 0 ↔
      (∀ n ∈ invocation.limits, n < UInt64.size) ∧ ∀ path ∈ invocation.files,
        PassesWithin ((limitsOf order).getLast?.getD defaultMaxErrors) disk path := by
  have files : (filesOf order).Perm invocation.files := same.filterMap _
  have limits : (limitsOf order).Perm invocation.limits := same.filterMap _
  rw [run_status (invocation.takes.perm files)]
  simp only [files.mem_iff, limits.mem_iff]

theorem exists_last {arg : Argument} (mem : arg ∈ invocation.arguments) :
    ∃ others, (others ++ [arg]).Perm invocation.arguments := by
  obtain ⟨left, right, eq⟩ := List.append_of_mem mem
  refine ⟨left ++ right, ?_⟩
  rw [eq, List.append_assoc]
  exact (List.perm_append_singleton arg right).append_left left

theorem Judges.fits (judges : invocation.Judges) : ∀ n ∈ invocation.limits, n < UInt64.size := by
  -- with files that are all empty the command must succeed, so its options are read
  let disk : Disk := fun _ => .ok ""
  have passes : ∀ path ∈ invocation.files, Passes disk path := fun _ _ =>
    ⟨"", rfl, by decide +kernel⟩
  have succeeds := (judges _ (.refl _) disk fun _ => none).mpr passes
  exact ((run_order (.refl _) disk fun _ => none).mp succeeds).1

theorem Judges.positive (judges : invocation.Judges) : ∀ n ∈ invocation.limits, 0 < n := by
  intro n mem
  by_contra zero
  obtain rfl : n = 0 := by omega
  obtain ⟨arg, isArg, limit⟩ := List.mem_filterMap.mp mem
  obtain rfl : arg = .maxErrors 0 := by
    cases arg with
    | maxErrors n => rw [Option.some.inj limit]
    | file | format | json | noColour => cases limit
  obtain ⟨others, same⟩ := exists_last isArg
  -- with the limit of zero behind all others the command succeeds whatever the files hold
  let disk : Disk := fun _ => .ok "@"
  have last : (limitsOf (others ++ [.maxErrors 0])).getLast?.getD defaultMaxErrors = 0 := by
    simp [limitsOf, List.filterMap_append, Argument.limit?]
  have succeeds := (run_order same disk fun _ => none).mpr
    ⟨judges.fits, fun _ _ => ⟨"@", rfl, .inl last⟩⟩
  obtain ⟨path, more, eq⟩ := List.exists_cons_of_ne_nil invocation.takes.ne_nil
  have path_mem : path ∈ invocation.files := by
    rw [files, eq]
    exact List.mem_cons_self
  obtain ⟨source, held, clean⟩ := (judges _ same disk fun _ => none).mp succeeds path path_mem
  obtain rfl : "@" = source := Except.ok.inj held
  exact absurd clean (by decide +kernel)

theorem passesWithin_iff {limit : Nat} (positive : 0 < limit) {disk : Disk} {path : String} :
    PassesWithin limit disk path ↔ Passes disk path := by
  have other : limit ≠ 0 := by omega
  simp only [PassesWithin, Passes, other, false_or]

/-- The verdict is on the files alone exactly where every limit is a positive number of the
machine. -/
theorem judges_iff (invocation : Invocation) :
    invocation.Judges ↔ ∀ n ∈ invocation.limits, 0 < n ∧ n < UInt64.size := by
  constructor
  · exact fun judges n mem => ⟨judges.positive n mem, judges.fits n mem⟩
  · intro bounds order same disk environment
    have limits : (limitsOf order).Perm invocation.limits := same.filterMap _
    have positive : 0 < (limitsOf order).getLast?.getD defaultMaxErrors := by
      cases last : (limitsOf order).getLast? with
      | none => decide
      | some n => exact (bounds n (limits.mem_iff.mp (List.mem_of_getLast? last))).1
    rw [run_order same, and_iff_right fun n mem => (bounds n mem).2]
    simp only [passesWithin_iff positive]

end Invocation

/-- With a limit of zero a broken file passes. -/
theorem limitZero_passes_broken :
    let disk : Disk := fun _ => .ok "@\n"
    (run disk (fun _ => none) ["check", "--max-errors", "0", "a.um"]).status = 0 ∧
      ¬Passes disk "a.um" := by
  refine ⟨by decide +kernel, ?_⟩
  rintro ⟨source, held, clean⟩
  obtain rfl : "@\n" = source := Except.ok.inj held
  exact absurd clean (by decide +kernel)

end UmkaSyntax.CommandLine
