import Mathlib.Data.List.Basic
import UmkaSyntax.Proofs.Source.Layout

namespace UmkaSyntax

def utf8 (cs : List Char) : List UInt8 := cs.flatMap String.utf8EncodeChar

def newlineByte : UInt8 := 10

theorem utf8_cons (c : Char) (cs : List Char) :
    utf8 (c :: cs) = String.utf8EncodeChar c ++ utf8 cs := List.flatMap_cons

theorem utf8_append (cs ds : List Char) : utf8 (cs ++ ds) = utf8 cs ++ utf8 ds :=
  List.flatMap_append

theorem utf8_toList (source : String) : utf8 source.toList = source.toUTF8.data.toList := by
  rw [String.toUTF8]
  nth_rewrite 2 [← String.ofList_toList (s := source)]
  rw [String.toByteArray_ofList, List.utf8Encode, List.data_toByteArray, utf8]

theorem length_utf8 (cs : List Char) : (utf8 cs).length = byteLength cs := by
  induction cs with
  | nil => rfl
  | cons c cs ih => rw [utf8_cons, List.length_append, String.length_utf8EncodeChar, ih, byteLength]

theorem utf8EncodeChar_ascii {c : Char} (ascii : c.toNat < 128) :
    String.utf8EncodeChar c = [UInt8.ofNat c.toNat] := by
  have small : c.val.toNat ≤ 127 := Nat.le_of_lt_succ ascii
  simp only [String.utf8EncodeChar, small, if_true]
  rfl

theorem le_of_mem_utf8EncodeChar {c : Char} (large : 128 ≤ c.toNat) {b : UInt8}
    (mem : b ∈ String.utf8EncodeChar c) : 128 ≤ b.toNat := by
  have byte : ∀ n : Nat, 128 ≤ n → n < 256 → 128 ≤ (UInt8.ofNat n).toNat := by
    intro n high below
    rwa [UInt8.toNat_ofNat', Nat.mod_eq_of_lt below]
  have several : ¬c.val.toNat ≤ 127 := Nat.not_le_of_lt large
  simp only [String.utf8EncodeChar, several, if_false] at mem
  split at mem
  next =>
    simp only [List.mem_cons, List.not_mem_nil, or_false] at mem
    rcases mem with rfl | rfl <;> exact byte _ (by omega) (by omega)
  next =>
    split at mem
    next =>
      simp only [List.mem_cons, List.not_mem_nil, or_false] at mem
      rcases mem with rfl | rfl | rfl <;> exact byte _ (by omega) (by omega)
    next =>
      simp only [List.mem_cons, List.not_mem_nil, or_false] at mem
      rcases mem with rfl | rfl | rfl | rfl <;> exact byte _ (by omega) (by omega)

theorem eq_newline_of_mem {c : Char} (mem : newlineByte ∈ String.utf8EncodeChar c) : c = '\n' := by
  obtain ascii | large := Nat.lt_or_ge c.toNat 128
  · rw [utf8EncodeChar_ascii ascii, List.mem_singleton] at mem
    have same := congrArg UInt8.toNat mem
    rw [UInt8.toNat_ofNat', Nat.mod_eq_of_lt (by omega)] at same
    exact Char.toNat_inj.mp same.symm
  · exact absurd (le_of_mem_utf8EncodeChar large mem) (by decide)

theorem newline_mem_utf8 {cs : List Char} (mem : newlineByte ∈ utf8 cs) : '\n' ∈ cs := by
  obtain ⟨c, inside, byte⟩ := List.mem_flatMap.mp mem
  exact eq_newline_of_mem byte ▸ inside

theorem count_newline_utf8 (cs : List Char) : (utf8 cs).count newlineByte = cs.count '\n' := by
  induction cs with
  | nil => rfl
  | cons c cs ih =>
      rw [utf8_cons, List.count_append, ih, List.count_cons, Nat.add_comm]
      congr 1
      by_cases newline : c = '\n'
      · subst newline
        rfl
      · rw [List.count_eq_zero_of_not_mem fun mem => newline (eq_newline_of_mem mem)]
        simp [newline]

def byteChars (bytes : List UInt8) : List Char := bytes.map Char.ofUInt8

theorem byteChars_append (left right : List UInt8) :
    byteChars (left ++ right) = byteChars left ++ byteChars right := List.map_append

theorem byteChars_utf8 {cs : List Char} (ascii : ∀ c ∈ cs, c.toNat < 128) :
    byteChars (utf8 cs) = cs := by
  induction cs with
  | nil => rfl
  | cons c cs ih =>
      obtain ⟨first, rest⟩ := List.forall_mem_cons.mp ascii
      have back : Char.ofUInt8 (UInt8.ofNat c.toNat) = c := by
        have same : (UInt8.ofNat c.toNat).toNat = c.toNat := by
          rw [UInt8.toNat_ofNat', Nat.mod_eq_of_lt (by omega)]
        exact Char.toNat_inj.mp same
      rw [utf8_cons, utf8EncodeChar_ascii first, byteChars_append, ih rest, byteChars, List.map_singleton,
        back, List.singleton_append]

theorem exists_byteChars_utf8 {c : Char} (large : 128 ≤ c.toNat) (cs : List Char) :
    ∃ d more, byteChars (utf8 (c :: cs)) = d :: more ∧ 128 ≤ d.toNat := by
  obtain ⟨b, bytes, eq⟩ : ∃ b bytes, String.utf8EncodeChar c = b :: bytes := by
    refine List.exists_cons_of_length_pos ?_
    rw [String.length_utf8EncodeChar]
    exact c.utf8Size_pos
  have mem : b ∈ String.utf8EncodeChar c := eq ▸ List.mem_cons_self
  refine ⟨Char.ofUInt8 b, byteChars (bytes ++ utf8 cs), ?_, le_of_mem_utf8EncodeChar large mem⟩
  rw [utf8_cons, eq]
  rfl

end UmkaSyntax
