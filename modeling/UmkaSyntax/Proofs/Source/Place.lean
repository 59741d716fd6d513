import UmkaSyntax.Proofs.Source.Layout

namespace UmkaSyntax

def Stretch.In (s : Stretch) (cs : List Char) : Prop :=
  ∃ left right, cs = left ++ s.text ++ right ∧
    s.span = ⟨byteLength left, byteLength left + byteLength s.text⟩

structure Span.Cuts (span : Span) (source : String) : Prop where
  ordered : span.start ≤ span.stop
  inside : span.stop ≤ source.utf8ByteSize
  start : String.Pos.Raw.IsValid source ⟨span.start⟩
  stop : String.Pos.Raw.IsValid source ⟨span.stop⟩

theorem Laid.in_of_mem {left right cs : List Char} {stretches : List Stretch} {stop : Nat}
    (laid : Laid (byteLength left) stretches stop)
    (whole : cs = left ++ spelled stretches ++ right) {s : Stretch} (mem : s ∈ stretches) :
    s.In cs := by
  induction stretches generalizing left with
  | nil => simp at mem
  | cons first more ih =>
      obtain ⟨span, rest⟩ := laid_cons.mp laid
      rcases List.mem_cons.mp mem with rfl | mem
      · exact ⟨left, spelled more ++ right, by simp [whole], span⟩
      · rw [← byteLength_append] at rest
        exact ih rest (by simp [whole]) mem

theorem Laid.in_spelled {stretches : List Stretch} {stop : Nat} (laid : Laid 0 stretches stop)
    {s : Stretch} (mem : s ∈ stretches) : s.In (spelled stretches) := by
  have whole : spelled stretches = [] ++ spelled stretches ++ [] := by simp
  exact Laid.in_of_mem (show Laid (byteLength []) stretches stop from laid) whole mem

theorem Laid.bounds_of_mem {start stop : Nat} {stretches : List Stretch}
    (laid : Laid start stretches stop) {s : Stretch} (mem : s ∈ stretches) :
    start ≤ s.span.start ∧ s.span.stop ≤ stop := by
  obtain ⟨before, after, rfl⟩ := List.append_of_mem mem
  obtain ⟨middle, front, back⟩ := laid_append.mp laid
  obtain ⟨span, rest⟩ := laid_cons.mp back
  rw [span, front.stop_eq, rest.stop_eq, front.stop_eq]
  exact ⟨Nat.le_add_right _ _, Nat.le_add_right _ _⟩

theorem isValid_byteLength (left right : List Char) {source : String}
    (eq : source.toList = left ++ right) :
    String.Pos.Raw.IsValid source ⟨byteLength left⟩ := by
  refine String.Pos.Raw.isValid_iff_exists_append.mpr ⟨String.ofList left, String.ofList right, ?_, ?_⟩
  · rw [← String.ofList_append, ← eq, String.ofList_toList]
  · simp [String.rawEndPos, utf8ByteSize_eq_byteLength]

namespace Stretch.In
variable {s : Stretch} {cs : List Char} {source : String}

theorem slice? (inside : s.In cs) : UmkaSyntax.slice? cs s.span = some s.text := by
  obtain ⟨left, right, rfl, span⟩ := inside
  rw [span]
  exact slice?_append left s.text right

theorem cuts (inside : s.In source.toList) : s.span.Cuts source := by
  obtain ⟨left, right, whole, span⟩ := inside
  rw [span]
  refine ⟨Nat.le_add_right _ _, ?_, ?_, ?_⟩
  · rw [utf8ByteSize_eq_byteLength, whole, byteLength_append, byteLength_append]
    exact Nat.le_add_right _ _
  · apply isValid_byteLength left (s.text ++ right)
    rw [whole, List.append_assoc]
  · rw [← byteLength_append]
    exact isValid_byteLength (left ++ s.text) right whole

end Stretch.In

end UmkaSyntax
