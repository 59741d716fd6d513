import Mathlib.Order.ConditionallyCompleteLattice.Basic
import Mathlib.Order.Lattice.Nat
import UmkaSyntax.Diagnostic.Suggestion

/-!
Edit distance. A text is edited one character at a time, at any place; the distance of two texts is
the least number of edits between them, and the rows of the table arrive at it.
-/

namespace UmkaSyntax

inductive Edit : List Char → List Char → Prop
  | insert (c : Char) (cs : List Char) : Edit cs (c :: cs)
  | delete (c : Char) (cs : List Char) : Edit (c :: cs) cs
  | replace (c d : Char) (cs : List Char) : Edit (c :: cs) (d :: cs)
  | behind (c : Char) {as bs : List Char} : Edit as bs → Edit (c :: as) (c :: bs)

inductive Edits : Nat → List Char → List Char → Prop
  | none (cs : List Char) : Edits 0 cs cs
  | more {n : Nat} {as bs cs : List Char} : Edit as bs → Edits n bs cs → Edits (n + 1) as cs

/-- The least number of edits that turn one text into the other. -/
noncomputable def editDistance (as bs : List Char) : Nat := sInf {n | Edits n as bs}

variable {n m : Nat} {as bs cs : List Char}

namespace Edit

theorem after (front : List Char) (edit : Edit as bs) : Edit (front ++ as) (front ++ bs) := by
  induction front with
  | nil => exact edit
  | cons c front ih => exact .behind c ih

theorem before (edit : Edit as bs) (back : List Char) : Edit (as ++ back) (bs ++ back) := by
  induction edit with
  | insert c cs => exact .insert c (cs ++ back)
  | delete c cs => exact .delete c (cs ++ back)
  | replace c d cs => exact .replace c d (cs ++ back)
  | behind c _ ih => exact .behind c ih

theorem reverse (edit : Edit as bs) : Edit as.reverse bs.reverse := by
  induction edit with
  | insert c cs =>
      rw [List.reverse_cons]
      simpa using (insert c []).after cs.reverse
  | delete c cs =>
      rw [List.reverse_cons]
      simpa using (delete c []).after cs.reverse
  | replace c d cs =>
      rw [List.reverse_cons, List.reverse_cons]
      exact (replace c d []).after cs.reverse
  | behind c _ ih =>
      rw [List.reverse_cons, List.reverse_cons]
      exact ih.before [c]

theorem length_le (edit : Edit as bs) : as.length ≤ bs.length + 1 ∧ bs.length ≤ as.length + 1 := by
  induction edit with
  | insert | delete | replace => constructor <;> simp only [List.length_cons] <;> omega
  | behind c _ ih => simpa using ih

theorem symm (edit : Edit as bs) : Edit bs as := by
  induction edit with
  | insert c cs => exact .delete c cs
  | delete c cs => exact .insert c cs
  | replace c d cs => exact .replace d c cs
  | behind c _ ih => exact .behind c ih

end Edit

namespace Edits

theorem one (edit : Edit as bs) : Edits 1 as bs := .more edit (.none bs)

theorem trans (first : Edits n as bs) (second : Edits m bs cs) : Edits (n + m) as cs := by
  induction first with
  | none => rwa [Nat.zero_add]
  | more edit _ ih =>
      rw [Nat.add_right_comm]
      exact .more edit (ih second)

theorem behind (c : Char) (edits : Edits n as bs) : Edits n (c :: as) (c :: bs) := by
  induction edits with
  | none => exact .none _
  | more edit _ ih => exact .more (.behind c edit) ih

theorem reverse (edits : Edits n as bs) : Edits n as.reverse bs.reverse := by
  induction edits with
  | none => exact .none _
  | more edit _ ih => exact .more edit.reverse ih

theorem length_le (edits : Edits n as bs) :
    as.length ≤ bs.length + n ∧ bs.length ≤ as.length + n := by
  induction edits with
  | none => exact ⟨Nat.le_refl _, Nat.le_refl _⟩
  | more edit _ ih =>
      have step := edit.length_le
      omega

theorem symm (edits : Edits n as bs) : Edits n bs as := by
  induction edits with
  | none cs => exact .none cs
  | more edit _ ih => exact ih.trans (.one edit.symm)

theorem zero_iff : Edits 0 as bs ↔ as = bs := by
  constructor
  · intro edits
    cases edits
    rfl
  · rintro rfl
    exact .none as

end Edits

/-- The characters at the front of the two texts are deleted, inserted, or matched. -/
def frontDistance : List Char → List Char → Nat
  | [], bs => bs.length
  | a :: as, [] => (a :: as).length
  | a :: as, b :: bs =>
      min (min (frontDistance as (b :: bs) + 1) (frontDistance (a :: as) bs + 1))
        (frontDistance as bs + if a = b then 0 else 1)

theorem frontDistance_nil (as : List Char) : frontDistance as [] = as.length := by
  cases as <;> simp [frontDistance]

theorem frontDistance_edits (as bs : List Char) : Edits (frontDistance as bs) as bs := by
  fun_induction frontDistance as bs with
  | case1 bs =>
      induction bs with
      | nil => exact .none []
      | cons b bs ih => exact ih.trans (.one (.insert b bs))
  | case2 a as =>
      induction as generalizing a with
      | nil => exact .one (.delete a [])
      | cons b as ih => exact .more (.delete a _) (ih b)
  | case3 a as b bs deleted inserted matched =>
      have one : Edits (frontDistance as (b :: bs) + 1) (a :: as) (b :: bs) :=
        .more (.delete a as) deleted
      have two : Edits (frontDistance (a :: as) bs + 1) (a :: as) (b :: bs) :=
        inserted.trans (.one (.insert b bs))
      have three : Edits (frontDistance as bs + if a = b then 0 else 1) (a :: as) (b :: bs) := by
        split
        next same => exact same ▸ matched.behind a
        next => exact (matched.behind a).trans (.one (.replace a b bs))
      grind

theorem frontDistance_cons_left (a : Char) (as bs : List Char) :
    frontDistance (a :: as) bs ≤ frontDistance as bs + 1 := by
  cases bs with
  | nil => simp [frontDistance_nil]
  | cons b bs =>
      rw [frontDistance]
      omega

theorem frontDistance_cons_right (as : List Char) (b : Char) (bs : List Char) :
    frontDistance as (b :: bs) ≤ frontDistance as bs + 1 := by
  cases as with
  | nil => simp [frontDistance]
  | cons a as =>
      rw [frontDistance]
      omega

theorem Edit.frontDistance_le (edit : Edit as bs) (cs : List Char) :
    frontDistance as cs ≤ frontDistance bs cs + 1 := by
  induction edit generalizing cs with
  | delete c bs => exact frontDistance_cons_left c bs cs
  | insert c as =>
      induction cs with
      | nil =>
          simp only [frontDistance_nil, List.length_cons]
          omega
      | cons d cs ih =>
          have inserted := frontDistance_cons_right as d cs
          rw [frontDistance]
          omega
  | replace c d as =>
      induction cs with
      | nil => simp [frontDistance_nil]
      | cons e cs ih =>
          rw [frontDistance, frontDistance]
          split <;> split <;> omega
  | behind c edit ih =>
      induction cs with
      | nil =>
          have shorter := edit.length_le
          simp only [frontDistance_nil, List.length_cons]
          omega
      | cons d cs inner =>
          have deleted := ih (d :: cs)
          have matched := ih cs
          rw [frontDistance, frontDistance]
          omega

theorem Edits.frontDistance_le (edits : Edits n as bs) : frontDistance as bs ≤ n := by
  induction edits with
  | none cs =>
      induction cs with
      | nil => simp [frontDistance]
      | cons c cs ih =>
          rw [frontDistance, if_pos rfl]
          omega
  | more edit _ ih => exact Nat.le_trans (edit.frontDistance_le _) (Nat.succ_le_succ ih)

/-- The distances from a text to another and to what it becomes with further characters. The texts
are given from their ends on, where the table grows. -/
def distancesFrom (as : List Char) : List Char → List Char → List Nat
  | done, [] => [frontDistance as done]
  | done, b :: bs => frontDistance as done :: distancesFrom as (b :: done) bs

theorem distancesFrom_eq_cons (as done bs : List Char) :
    ∃ more, distancesFrom as done bs = frontDistance as done :: more := by
  cases bs with
  | nil => exact ⟨[], rfl⟩
  | cons b bs => exact ⟨_, rfl⟩

theorem rowEntries_distancesFrom (a : Char) (as done bs : List Char) :
    frontDistance (a :: as) done ::
        rowEntries a bs (frontDistance (a :: as) done) (distancesFrom as done bs) =
      distancesFrom (a :: as) done bs := by
  induction bs generalizing done with
  | nil => rfl
  | cons b bs ih =>
      obtain ⟨above, up⟩ := distancesFrom_eq_cons as (b :: done) bs
      have entry : frontDistance (a :: as) (b :: done) =
          min (min (frontDistance as (b :: done) + 1) (frontDistance (a :: as) done + 1))
            (frontDistance as done + if a = b then 0 else 1) := by
        rw [frontDistance]
      rw [distancesFrom, distancesFrom, ← ih (b :: done), up, rowEntries, ← entry]

theorem nextRow_distancesFrom (bs as : List Char) (a : Char) :
    nextRow bs (distancesFrom as [] bs) a = distancesFrom (a :: as) [] bs := by
  have first : (distancesFrom as [] bs).headD 0 + 1 = frontDistance (a :: as) [] := by
    obtain ⟨more, eq⟩ := distancesFrom_eq_cons as [] bs
    rw [eq, List.headD_cons, frontDistance_nil, frontDistance_nil, List.length_cons]
  rw [nextRow, first]
  exact rowEntries_distancesFrom a as [] bs

theorem foldl_nextRow (as bs done : List Char) :
    as.foldl (nextRow bs) (distancesFrom done [] bs) = distancesFrom (as.reverse ++ done) [] bs := by
  induction as generalizing done with
  | nil => rfl
  | cons a as ih =>
      rw [List.foldl_cons, nextRow_distancesFrom, ih, List.reverse_cons, List.append_assoc,
        List.singleton_append]

theorem range_eq_distancesFrom (bs done : List Char) :
    List.range' done.length (bs.length + 1) = distancesFrom [] done bs := by
  induction bs generalizing done with
  | nil => simp [distancesFrom, frontDistance]
  | cons b bs ih =>
      rw [List.length_cons, List.range'_succ, distancesFrom, ← ih (b :: done), frontDistance,
        List.length_cons]

theorem getLast?_distancesFrom (as done bs : List Char) :
    (distancesFrom as done bs).getLast? = some (frontDistance as (bs.reverse ++ done)) := by
  induction bs generalizing done with
  | nil => rfl
  | cons b bs ih =>
      obtain ⟨more, eq⟩ := distancesFrom_eq_cons as (b :: done) bs
      have last := ih (b :: done)
      rw [eq] at last
      rw [distancesFrom, eq, List.getLast?_cons_cons, last, List.reverse_cons, List.append_assoc,
        List.singleton_append]

theorem levenshtein_eq_frontDistance (as bs : List Char) :
    levenshtein as bs = frontDistance as.reverse bs.reverse := by
  have start : List.range (bs.length + 1) = distancesFrom [] [] bs := by
    rw [List.range_eq_range', ← range_eq_distancesFrom]
    rfl
  rw [levenshtein, start, foldl_nextRow, getLast?_distancesFrom, List.append_nil, List.append_nil,
    Option.getD_some]

/-- The table arrives at a number of edits between the texts, and at the least one. -/
theorem levenshtein_isLeast (as bs : List Char) :
    IsLeast {n | Edits n as bs} (levenshtein as bs) := by
  rw [levenshtein_eq_frontDistance]
  refine ⟨?_, fun n edits => edits.reverse.frontDistance_le⟩
  have edits := (frontDistance_edits as.reverse bs.reverse).reverse
  rwa [List.reverse_reverse, List.reverse_reverse] at edits

theorem levenshtein_eq_editDistance (as bs : List Char) : levenshtein as bs = editDistance as bs :=
  (levenshtein_isLeast as bs).csInf_eq.symm

/-- So many edits as the table says turn the first text into the second, and no fewer do. Hence
only equal texts are at distance zero, both ways are equally far, and no detour is shorter. -/
theorem levenshtein_metric (as bs : List Char) :
    IsLeast {n | Edits n as bs} (levenshtein as bs) ∧
      (levenshtein as bs = 0 ↔ as = bs) ∧
      levenshtein as bs = levenshtein bs as ∧
      ∀ cs, levenshtein as cs ≤ levenshtein as bs + levenshtein bs cs := by
  have least := levenshtein_isLeast
  have oneWay : ∀ as bs, levenshtein as bs ≤ levenshtein bs as :=
    fun as bs => (least as bs).2 (least bs as).1.symm
  refine ⟨least as bs, ?_, Nat.le_antisymm (oneWay as bs) (oneWay bs as), fun cs => ?_⟩
  · constructor
    · intro zero
      have none : Edits 0 as bs := zero ▸ (least as bs).1
      exact Edits.zero_iff.mp none
    · rintro rfl
      exact Nat.le_zero.mp ((least as as).2 (Edits.none as))
  · have detour : Edits (levenshtein as bs + levenshtein bs cs) as cs :=
      (least as bs).1.trans (least bs cs).1
    exact (least as cs).2 detour

end UmkaSyntax
