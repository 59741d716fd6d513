import Mathlib.Data.List.Basic
import UmkaSyntax.Source.Basic

namespace UmkaSyntax

theorem byteLength_append (cs ds : List Char) :
    byteLength (cs ++ ds) = byteLength cs + byteLength ds := by
  induction cs with
  | nil => simp [byteLength]
  | cons c cs ih => simp [byteLength, ih, Nat.add_assoc]

theorem utf8ByteSize_eq_byteLength (s : String) : s.utf8ByteSize = byteLength s.toList := by
  have ofChars : ∀ cs : List Char, (String.ofList cs).utf8ByteSize = byteLength cs := by
    intro cs
    induction cs with
    | nil => rfl
    | cons c cs ih => simp [String.ofList_cons, byteLength, ih]
  rw [← ofChars, String.ofList_toList]

theorem dropBytes?_append (before cs : List Char) :
    dropBytes? (byteLength before) (before ++ cs) = some cs := by
  induction before with
  | nil => simp [byteLength, dropBytes?]
  | cons c before ih =>
      obtain ⟨n, size⟩ : ∃ n, byteLength (c :: before) = n + 1 :=
        Nat.exists_eq_succ_of_ne_zero (by have := c.utf8Size_pos; simp only [byteLength]; omega)
      have rest : n + 1 - c.utf8Size = byteLength before := by
        simp only [byteLength] at size; omega
      have fits : c.utf8Size ≤ n + 1 := by simp only [byteLength] at size; omega
      rw [size, List.cons_append, dropBytes?, if_pos fits, rest, ih]

theorem takeBytes?_append (text after : List Char) :
    takeBytes? (byteLength text) (text ++ after) = some text := by
  induction text with
  | nil => simp [byteLength, takeBytes?]
  | cons c text ih =>
      obtain ⟨n, size⟩ : ∃ n, byteLength (c :: text) = n + 1 :=
        Nat.exists_eq_succ_of_ne_zero (by have := c.utf8Size_pos; simp only [byteLength]; omega)
      have rest : n + 1 - c.utf8Size = byteLength text := by
        simp only [byteLength] at size; omega
      have fits : c.utf8Size ≤ n + 1 := by simp only [byteLength] at size; omega
      rw [size, List.cons_append, takeBytes?, if_pos fits, rest, ih, Option.map_some]

theorem slice?_append (before text after : List Char) :
    slice? (before ++ text ++ after) ⟨byteLength before, byteLength before + byteLength text⟩ =
      some text := by
  simp [slice?, Span.length, List.append_assoc, dropBytes?_append, takeBytes?_append]

structure Stretch where
  span : Span
  text : List Char

def spelled (stretches : List Stretch) : List Char := stretches.flatMap Stretch.text

@[simp] theorem spelled_nil : spelled [] = [] := rfl

@[simp] theorem spelled_cons (s : Stretch) (more : List Stretch) :
    spelled (s :: more) = s.text ++ spelled more := rfl

@[simp] theorem spelled_append (left right : List Stretch) :
    spelled (left ++ right) = spelled left ++ spelled right := List.flatMap_append

/-- The stretches cover the bytes from `start` to `stop` in order and without gaps. -/
def Laid : Nat → List Stretch → Nat → Prop
  | start, [], stop => start = stop
  | start, s :: more, stop =>
      s.span = ⟨start, start + byteLength s.text⟩ ∧ Laid (start + byteLength s.text) more stop

@[simp] theorem laid_nil {start stop : Nat} : Laid start [] stop ↔ start = stop := Iff.rfl

theorem laid_cons {start stop : Nat} {s : Stretch} {more : List Stretch} :
    Laid start (s :: more) stop ↔
      s.span = ⟨start, start + byteLength s.text⟩ ∧
        Laid (start + byteLength s.text) more stop := Iff.rfl

theorem laid_append {start stop : Nat} {left right : List Stretch} :
    Laid start (left ++ right) stop ↔ ∃ middle, Laid start left middle ∧ Laid middle right stop := by
  induction left generalizing start with
  | nil => simp
  | cons s left ih => simp [laid_cons, ih, and_assoc]

theorem Laid.stop_eq {start stop : Nat} {stretches : List Stretch}
    (laid : Laid start stretches stop) : stop = start + byteLength (spelled stretches) := by
  induction stretches generalizing start with
  | nil => simpa [byteLength] using (laid_nil.mp laid).symm
  | cons s more ih =>
      rw [ih (laid_cons.mp laid).2, spelled_cons, byteLength_append, Nat.add_assoc]

theorem Laid.stop_of_mem {start stop : Nat} {stretches : List Stretch}
    (laid : Laid start stretches stop) {s : Stretch} (mem : s ∈ stretches) :
    s.span.stop = s.span.start + byteLength s.text := by
  induction stretches generalizing start with
  | nil => simp at mem
  | cons first more ih =>
      obtain ⟨span, rest⟩ := laid_cons.mp laid
      rcases List.mem_cons.mp mem with rfl | mem
      · rw [span]
      · exact ih rest mem

theorem Laid.slice?_of_mem {start stop : Nat} {stretches : List Stretch}
    (laid : Laid start stretches stop) {s : Stretch} (mem : s ∈ stretches) :
    slice? (spelled stretches) ⟨s.span.start - start, s.span.stop - start⟩ = some s.text := by
  obtain ⟨before, after, rfl⟩ := List.append_of_mem mem
  obtain ⟨middle, front, back⟩ := laid_append.mp laid
  obtain ⟨span, -⟩ := laid_cons.mp back
  obtain rfl := front.stop_eq
  rw [span, Nat.add_assoc, Nat.add_sub_cancel_left, Nat.add_sub_cancel_left, spelled_append,
    spelled_cons, ← List.append_assoc]
  exact slice?_append ..

theorem Laid.pairwise {start stop : Nat} {stretches : List Stretch}
    (laid : Laid start stretches stop) :
    stretches.Pairwise (·.span.stop ≤ ·.span.start) ∧ ∀ s ∈ stretches, start ≤ s.span.start := by
  induction stretches generalizing start with
  | nil => simp
  | cons first more ih =>
      obtain ⟨span, rest⟩ := laid_cons.mp laid
      obtain ⟨apart, later⟩ := ih rest
      refine ⟨List.pairwise_cons.mpr ⟨fun s mem => ?_, apart⟩, ?_⟩
      · rw [span]
        exact later s mem
      · rw [List.forall_mem_cons, span]
        exact ⟨Nat.le_refl _, fun s mem => Nat.le_trans (Nat.le_add_right ..) (later s mem)⟩

theorem Laid.part {stop : Nat} {before part after : List Stretch}
    (laid : Laid 0 (before ++ part ++ after) stop) :
    Laid (byteLength (spelled before)) part
      (byteLength (spelled before) + byteLength (spelled part)) := by
  obtain ⟨_, left, -⟩ := laid_append.mp laid
  obtain ⟨middle, first, second⟩ := laid_append.mp left
  have middle_eq := first.stop_eq
  have stop_eq := second.stop_eq
  rw [Nat.zero_add] at middle_eq
  subst middle_eq
  rwa [stop_eq] at second

end UmkaSyntax
