import UmkaSyntax.Diagnostic.Suggestion
import UmkaSyntax.Proofs.Text.EditDistance

namespace UmkaSyntax

/-- What there is to know of the candidates seen so far: the first of those at the least distance,
or that all of them are beyond the limit. -/
inductive Nearest (distance : String → Nat) (limit : Nat) :
    List String → Option (String × Nat) → Prop
  | beyond {seen : List String} (far : ∀ c ∈ seen, limit < distance c) :
      Nearest distance limit seen none
  | found {before after : List String} {best : String} (near : distance best ≤ limit)
      (farther : ∀ c ∈ before, distance best < distance c)
      (noNearer : ∀ c ∈ after, distance best ≤ distance c) :
      Nearest distance limit (before ++ best :: after) (some (best, distance best))

namespace Nearest

variable {distance : String → Nat} {limit : Nat} {seen : List String} {best : Option (String × Nat)}

theorem step (nearest : Nearest distance limit seen best) (c : String) :
    Nearest distance limit (seen ++ [c])
      (if distance c ≤ limit ∧ best.all (distance c < ·.2) then some (c, distance c) else best) := by
  cases nearest with
  | beyond far =>
      split
      next closer =>
        exact .found closer.1 (fun d mem => Nat.lt_of_le_of_lt closer.1 (far d mem)) (by simp)
      next missed =>
        have beyond : limit < distance c := by simpa using missed
        exact .beyond (by simpa [or_imp, forall_and] using ⟨far, beyond⟩)
  | @found before after current near farther noNearer =>
      split
      next closer =>
        have nearer : distance c < distance current := by simpa using closer.2
        refine .found closer.1 (fun d mem => ?_) (by simp)
        rcases List.mem_append.mp mem with mem | mem
        · exact Nat.lt_trans nearer (farther d mem)
        rcases List.mem_cons.mp mem with rfl | mem
        · exact nearer
        · exact Nat.lt_of_lt_of_le nearer (noNearer d mem)
      next missed =>
        have behind : distance current ≤ distance c := by
          simp only [Option.all_some, decide_eq_true_eq, not_and] at missed
          omega
        rw [List.append_assoc, List.cons_append]
        refine .found near farther fun d mem => ?_
        rcases List.mem_append.mp mem with mem | mem
        · exact noNearer d mem
        · rwa [List.mem_singleton.mp mem]

theorem map_eq (nearest : Nearest distance limit seen best) :
    best.map (·.1) =
      if ∃ c ∈ seen, distance c ≤ limit then
        seen.find? fun c => ∀ d ∈ seen, distance c ≤ distance d
      else none := by
  cases nearest with
  | beyond far =>
      rw [if_neg fun ⟨c, mem, near⟩ => Nat.not_le_of_lt (far c mem) near]
      rfl
  | @found before after current near farther noNearer =>
      rw [if_pos ⟨current, by simp, near⟩]
      refine (List.find?_eq_some_iff_append.mpr ⟨?_, before, after, rfl, fun d mem => ?_⟩).symm
      · simp only [decide_eq_true_eq, List.forall_mem_append, List.forall_mem_cons]
        exact ⟨fun d mem => Nat.le_of_lt (farther d mem), Nat.le_refl _, noNearer⟩
      · simp only [Bool.not_eq_true', decide_eq_false_iff_not]
        exact fun least => Nat.not_le_of_lt (farther d mem) (least current (by simp))

theorem isSome_iff (nearest : Nearest distance limit seen best) :
    (best.map (·.1)).isSome ↔ ∃ c ∈ seen, distance c ≤ limit := by
  cases nearest with
  | beyond far =>
      simp only [Option.map_none, Option.isSome_none, Bool.false_eq_true, false_iff, not_exists,
        not_and, Nat.not_le]
      exact far
  | @found before after current near farther noNearer =>
      exact iff_of_true rfl ⟨current, by simp, near⟩

end Nearest

theorem lengths_le_editDistance (word candidate : String) :
    max word.length candidate.length - min word.length candidate.length ≤
      editDistance word.toList candidate.toList := by
  rw [← levenshtein_eq_editDistance]
  have lengths := (levenshtein_isLeast word.toList candidate.toList).1.length_le
  simp only [String.length_toList] at lengths
  omega

theorem closerCandidate_eq {word candidate : String} (other : candidate ≠ word)
    (best : Option (String × Nat)) :
    closerCandidate word best candidate =
      if editDistance word.toList candidate.toList ≤ toleratedDistance word.length ∧
          best.all (editDistance word.toList candidate.toList < ·.2) then
        some (candidate, editDistance word.toList candidate.toList)
      else best := by
  have lengths := lengths_le_editDistance word candidate
  unfold closerCandidate
  simp only [other, false_or, levenshtein_eq_editDistance]
  split
  next apart =>
    have beyond : ¬ editDistance word.toList candidate.toList ≤ toleratedDistance word.length := by
      omega
    rw [if_neg fun both => beyond both.1]
  next => rfl

theorem closerCandidate_word (word : String) (best : Option (String × Nat)) :
    closerCandidate word best word = best := by
  simp [closerCandidate]

theorem foldl_closerCandidate (word : String) (candidates : List String) :
    candidates.foldl (closerCandidate word) none =
      (candidates.filter (· ≠ word)).foldl (closerCandidate word) none := by
  rw [List.foldl_filter]
  congr 1
  funext best candidate
  split
  next => rfl
  next same =>
    obtain rfl : candidate = word := by simpa using same
    exact closerCandidate_word candidate best

theorem foldl_nearest {word : String} {others : List String} (other : ∀ c ∈ others, c ≠ word) :
    Nearest (fun c => editDistance word.toList c.toList) (toleratedDistance word.length) others
      (others.foldl (closerCandidate word) none) := by
  induction others using List.reverseRecOn with
  | nil => exact .beyond (by simp)
  | append_singleton seen c ih =>
      rw [List.foldl_append, List.foldl_cons, List.foldl_nil, closerCandidate_eq (other c (by simp))]
      exact (ih fun d mem => other d (List.mem_append_left _ mem)).step c

/-- There is a suggestion if some candidate, other than the word itself, is within the limit for the
length of the word, and it is the first of those at the least edit distance. No candidate that its
length rules out is within the limit. -/
theorem nearest?_eq_first_minimal (word : String) (candidates : List String) :
    let limit := if word.length ≤ 2 then 1 else if word.length ≤ 5 then 2 else 3
    let distance := fun candidate : String => editDistance word.toList candidate.toList
    let others := candidates.filter (· ≠ word)
    (nearest? word candidates =
      if ∃ c ∈ others, distance c ≤ limit then
        others.find? fun c => ∀ d ∈ others, distance c ≤ distance d
      else none) ∧
    ((nearest? word candidates).isSome ↔ ∃ c ∈ others, distance c ≤ limit) ∧
    ∀ c : String, limit < max word.length c.length - min word.length c.length →
      limit < distance c := by
  intro limit distance others
  have nearest : Nearest distance limit others (others.foldl (closerCandidate word) none) :=
    foldl_nearest fun c mem => by simpa using (List.mem_filter.mp mem).2
  rw [nearest?, foldl_closerCandidate]
  refine ⟨nearest.map_eq, nearest.isSome_iff, fun c apart => ?_⟩
  exact Nat.lt_of_lt_of_le apart (lengths_le_editDistance word c)

end UmkaSyntax
