import Mathlib.Data.List.TakeWhile
import UmkaSyntax.Text.Basic
import UmkaSyntax.Text.Styled

namespace UmkaSyntax

def controlLength? : List Char → Option Nat
  | '[' :: cs => if 'm' ∈ cs then some (runLength (· != 'm') cs + 2) else none
  | _ => none

def withoutControlsAfter : Nat → List Char → List Char
  | _, [] => []
  | skip + 1, _ :: cs => withoutControlsAfter skip cs
  | 0, c :: cs =>
      if c = '\x1b' then
        match controlLength? cs with
        | some length => withoutControlsAfter length cs
        | none => c :: withoutControlsAfter 0 cs
      else c :: withoutControlsAfter 0 cs

def withoutControls (cs : List Char) : List Char := withoutControlsAfter 0 cs

theorem withoutControlsAfter_append (skipped cs : List Char) :
    withoutControlsAfter skipped.length (skipped ++ cs) = withoutControls cs := by
  induction skipped with
  | nil => rfl
  | cons c skipped ih => exact ih

theorem withoutControls_append {text : List Char} (clear : '\x1b' ∉ text) (cs : List Char) :
    withoutControls (text ++ cs) = text ++ withoutControls cs := by
  induction text with
  | nil => rfl
  | cons c text ih =>
      rw [List.mem_cons, not_or] at clear
      rw [List.cons_append, withoutControls, withoutControlsAfter, if_neg (Ne.symm clear.1)]
      exact congrArg (c :: ·) (ih clear.2)

theorem withoutControls_control {codes : List Char} (single : 'm' ∉ codes) (cs : List Char) :
    withoutControls ('\x1b' :: '[' :: codes ++ 'm' :: cs) = withoutControls cs := by
  have run : (codes ++ 'm' :: cs).takeWhile (· != 'm') = codes := by
    have inside : ∀ c ∈ codes, (c != 'm') = true := fun c mem => by
      simpa using fun eq : c = 'm' => single (eq ▸ mem)
    rw [List.takeWhile_append_of_pos inside]
    simp
  have length : controlLength? ('[' :: codes ++ 'm' :: cs) = some (codes.length + 2) := by
    rw [List.cons_append, controlLength?, if_pos (by simp), runLength, run]
  have skipped := withoutControlsAfter_append ('[' :: codes ++ ['m']) cs
  rw [List.append_assoc] at skipped
  rw [List.cons_append, withoutControls, withoutControlsAfter, if_pos rfl, length]
  simpa using skipped

theorem of_mem_intercalate {separator : List Char} {texts : List (List Char)} {c : Char}
    (mem : c ∈ separator.intercalate texts) : c ∈ separator ∨ ∃ text ∈ texts, c ∈ text := by
  induction texts with
  | nil => simp at mem
  | cons text texts ih =>
      cases texts with
      | nil => exact .inr ⟨text, List.mem_cons_self, by simpa using mem⟩
      | cons next texts =>
          rw [List.intercalate_cons_cons, List.mem_append, List.mem_append] at mem
          rcases mem with (own | between) | later
          · exact .inr ⟨text, List.mem_cons_self, own⟩
          · exact .inl between
          · rcases ih later with between | ⟨other, inside, own⟩
            · exact .inl between
            · exact .inr ⟨other, List.mem_cons_of_mem _ inside, own⟩

theorem Style.start_eq (style : Style) :
    ∃ codes, style.start = '\x1b' :: '[' :: codes ++ ['m'] ∧ 'm' ∉ codes := by
  refine ⟨_, rfl, fun mem => ?_⟩
  rcases of_mem_intercalate mem with separator | ⟨digits, number, own⟩
  · exact absurd separator (by decide)
  · obtain ⟨n, -, rfl⟩ := List.mem_map.mp number
    exact absurd (Nat.isDigit_of_mem_toDigits (by decide) (by decide) own) (by decide)

theorem resume_of_clear {text : List Char} (clear : '\x1b' ∉ text) (start : List Char) :
    resume start text = text := by
  induction text with
  | nil => rfl
  | cons c text ih =>
      rw [List.mem_cons, not_or] at clear
      rw [resume.eq_def]
      split
      next eq => exact absurd (List.cons.inj eq).1.symm clear.1
      next eq =>
        obtain ⟨rfl, rfl⟩ := List.cons.inj eq
        rw [ih clear.2]
      next eq => cases eq

theorem Run.withoutControls_write {run : Run} (clear : '\x1b' ∉ run.text.toList) (cs : List Char) :
    withoutControls (run.write true ++ cs) = run.write false ++ withoutControls cs := by
  obtain ⟨style, text⟩ := run
  cases style with
  | none => exact withoutControls_append clear cs
  | some style =>
      obtain ⟨codes, start, single⟩ := style.start_eq
      have ends : 'm' ∉ ['0'] := by decide
      have closing := withoutControls_control ends cs
      simp only [Run.write, if_true, resume_of_clear clear, List.append_assoc]
      rw [start, List.append_assoc, List.singleton_append, withoutControls_control single,
        withoutControls_append clear]
      exact congrArg (text.toList ++ ·) closing

namespace StyledText

def Clear (text : StyledText) : Prop := ∀ run ∈ text, '\x1b' ∉ run.text.toList

theorem Clear.write {text : StyledText} (clear : text.Clear) :
    withoutControls (text.write true).toList = (text.write false).toList := by
  rw [StyledText.write, StyledText.write, String.toList_ofList, String.toList_ofList]
  induction text with
  | nil => rfl
  | cons run text ih =>
      rw [List.flatMap_cons, List.flatMap_cons,
        Run.withoutControls_write (clear run List.mem_cons_self)]
      exact congrArg (_ ++ ·) (ih fun run mem => clear run (List.mem_cons_of_mem _ mem))

@[simp] theorem clear_append {left right : StyledText} :
    Clear (left ++ right) ↔ Clear left ∧ Clear right := by
  simp only [Clear, List.mem_append, or_imp, forall_and]

@[simp] theorem clear_plain {text : String} : Clear (plain text) ↔ '\x1b' ∉ text.toList := by
  simp [Clear, plain, Run.plain]

@[simp] theorem clear_styled {style : Style} {text : String} :
    Clear (styled style text) ↔ '\x1b' ∉ text.toList := by
  simp [Clear, styled]

end StyledText

end UmkaSyntax
