import UmkaSyntax.Parsing.Parse
import UmkaSyntax.Proofs.Tree.Shift

namespace UmkaSyntax.ParseError

theorem insertByStart_left {e : ParseError} {right : List ParseError}
    (before : ∀ f ∈ right, e.span.start ≤ f.span.start) (left : List ParseError) :
    insertByStart e (left ++ right) = insertByStart e left ++ right := by
  induction left with
  | nil =>
      cases right with
      | nil => rfl
      | cons f right => exact if_pos (before f List.mem_cons_self)
  | cons f left ih =>
      rw [List.cons_append, insertByStart, insertByStart, ih]
      split <;> rfl

theorem insertByStart_right {e : ParseError} {left : List ParseError}
    (behind : ∀ f ∈ left, f.span.start < e.span.start) (right : List ParseError) :
    insertByStart e (left ++ right) = left ++ insertByStart e right := by
  induction left with
  | nil => rfl
  | cons f left ih =>
      rw [List.cons_append, insertByStart,
        if_neg (Nat.not_le_of_lt (behind f List.mem_cons_self)),
        ih fun g mem => behind g (List.mem_cons_of_mem f mem)]
      rfl

theorem mem_insertByStart {e f : ParseError} {errors : List ParseError} :
    f ∈ insertByStart e errors ↔ f = e ∨ f ∈ errors := by
  induction errors with
  | nil => simp [insertByStart]
  | cons g errors ih =>
      rw [insertByStart]
      split
      · simp
      · simp only [List.mem_cons, ih]
        exact or_left_comm

theorem mem_sortByStart {f : ParseError} {errors : List ParseError} :
    f ∈ sortByStart errors ↔ f ∈ errors := by
  induction errors with
  | nil => rfl
  | cons e errors ih =>
      simp only [sortByStart, List.foldr_cons, mem_insertByStart, List.mem_cons] at ih ⊢
      rw [ih]

def startsBefore (place : Nat) (e : ParseError) : Bool := e.span.start < place

theorem sortByStart_split (place : Nat) (errors : List ParseError) :
    sortByStart errors = sortByStart (errors.filter (startsBefore place)) ++
      sortByStart (errors.filter (!startsBefore place ·)) := by
  induction errors with
  | nil => rfl
  | cons e errors ih =>
      have step : ∀ list, sortByStart (e :: list) = insertByStart e (sortByStart list) := fun _ => rfl
      rw [step, ih]
      cases side : startsBefore place e with
      | true =>
          rw [List.filter_cons_of_pos side, List.filter_cons_of_neg (by simp [side]), step]
          refine insertByStart_left (fun f mem => ?_) _
          have place' := List.of_mem_filter (mem_sortByStart.mp mem)
          simp only [startsBefore, decide_eq_true_eq, Bool.not_eq_true', decide_eq_false_iff_not]
            at side place'
          omega
      | false =>
          rw [List.filter_cons_of_neg (by simp [side]), List.filter_cons_of_pos (by simp [side]), step]
          refine insertByStart_right (fun f mem => ?_) _
          have place' := List.of_mem_filter (mem_sortByStart.mp mem)
          simp only [startsBefore, decide_eq_true_eq, decide_eq_false_iff_not] at side place'
          omega

theorem insertByStart_shift (k : Nat) (e : ParseError) (errors : List ParseError) :
    insertByStart (e.shift k) (errors.map (shift k)) = (insertByStart e errors).map (shift k) := by
  induction errors with
  | nil => rfl
  | cons f errors ih =>
      have order : (e.shift k).span.start ≤ (f.shift k).span.start ↔
          e.span.start ≤ f.span.start := by
        simp [Span.shift]
      simp only [List.map_cons, insertByStart, order, ih]
      split <;> rfl

theorem sortByStart_shift (k : Nat) (errors : List ParseError) :
    sortByStart (errors.map (shift k)) = (sortByStart errors).map (shift k) := by
  induction errors with
  | nil => rfl
  | cons e errors ih =>
      exact (congrArg (insertByStart (e.shift k)) ih).trans (insertByStart_shift k e _)

theorem sortByStart_append {k : Nat} {early early' late late' : List ParseError}
    (before : ∀ e ∈ early ++ early', startsBefore k e = true) :
    sortByStart (early ++ late.map (shift k) ++ (early' ++ late'.map (shift k))) =
      sortByStart (early ++ early') ++ (sortByStart (late ++ late')).map (shift k) := by
  have behind : ∀ e ∈ (late ++ late').map (shift k), startsBefore k e = false := by
    intro e mem
    obtain ⟨f, -, rfl⟩ := List.mem_map.mp mem
    simp [startsBefore, Span.shift]
  have keep : ∀ list : List ParseError, (∀ e ∈ list, startsBefore k e = true) →
      list.filter (startsBefore k) = list ∧ list.filter (!startsBefore k ·) = [] := fun list all =>
    ⟨List.filter_eq_self.mpr all, List.filter_eq_nil_iff.mpr fun e mem => by simp [all e mem]⟩
  have drop : ∀ list : List ParseError, (∀ e ∈ list, startsBefore k e = false) →
      list.filter (startsBefore k) = [] ∧ list.filter (!startsBefore k ·) = list := fun list all =>
    ⟨List.filter_eq_nil_iff.mpr fun e mem => by simp [all e mem],
      List.filter_eq_self.mpr fun e mem => by simp [all e mem]⟩
  rw [List.map_append] at behind
  obtain ⟨a, a'⟩ := keep early fun e mem => before e (List.mem_append_left _ mem)
  obtain ⟨b, b'⟩ := drop (late.map (shift k)) fun e mem => behind e (List.mem_append_left _ mem)
  obtain ⟨c, c'⟩ := keep early' fun e mem => before e (List.mem_append_right _ mem)
  obtain ⟨d, d'⟩ := drop (late'.map (shift k)) fun e mem => behind e (List.mem_append_right _ mem)
  rw [sortByStart_split k, ← sortByStart_shift, List.map_append]
  simp only [List.filter_append, a, a', b, b', c, c', d, d', List.append_nil, List.nil_append]

theorem insertByStart_perm (e : ParseError) (errors : List ParseError) :
    (insertByStart e errors).Perm (e :: errors) := by
  induction errors with
  | nil => exact .refl _
  | cons f errors ih =>
      rw [insertByStart]
      split
      · exact .refl _
      · exact (ih.cons f).trans (.swap e f errors)

theorem sortByStart_perm (errors : List ParseError) : (sortByStart errors).Perm errors := by
  induction errors with
  | nil => exact .refl _
  | cons e errors ih => exact (insertByStart_perm e _).trans (ih.cons e)

end UmkaSyntax.ParseError

namespace UmkaSyntax

/-- All errors of a parse, by where they start. -/
def unlimitedErrors (entry : Entry) (source : String) : List ParseError :=
  ParseError.sortByStart ((TokenStream.ofText source.toList).errors.map .lexical ++
    (parseStream entry (TokenStream.ofText source.toList)).errors.toList)

theorem exists_unlimited (entry : Entry) (source : String) :
    ∃ bound, ∀ limit, bound ≤ limit →
      (parse entry limit source).errors = unlimitedErrors entry source :=
  ⟨_, fun _ enough => List.take_of_length_le enough⟩

end UmkaSyntax
