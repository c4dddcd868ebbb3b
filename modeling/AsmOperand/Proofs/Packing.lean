import AsmOperand.Proofs.Registers
import AsmOperand.Proofs.Spelling
import Mathlib.Data.List.DropRight

/-!
# Packed strings

Each character of a string has a place of eight bits, the first one the highest. A code that is too
large for its place carries into the places above and never reaches down. So what stands before a
text only adds a multiple of the places that the text takes, whatever the characters are, and a
register of so many places sees none of it. Where every code fits its place, the number is the one
that the codes spell in base 256.
-/

namespace AsmOperand

/-- All codes fit eight bits. -/
def Text.IsNarrow (t : Text) : Prop := ∀ c ∈ t, c.toNat < 256

instance (t : Text) : Decidable t.IsNarrow := List.decidableBAll _ t

namespace Numeral

theorem packed_append (s t : Text) :
    packed (s ++ t) = packed s * 2 ^ (8 * t.length) + packed t := by
  have places : 256 ^ t.length = 2 ^ (8 * t.length) := by rw [Nat.pow_mul]
  rw [packed_eq, packed_eq, packed_eq, List.map_append, List.reverse_append, Nat.ofDigits_append,
    List.length_reverse, List.length_map, places, Nat.mul_comm, Nat.add_comm]

section Narrow
variable {s t : Text} (hs : s.IsNarrow)
include hs

theorem code_lt : ∀ d ∈ (s.map Char.toNat).reverse, d < 256 := by
  intro d hd
  obtain ⟨c, hc, rfl⟩ := List.mem_map.mp (List.mem_reverse.mp hd)
  exact hs c hc

theorem packed_lt : packed s < 2 ^ (8 * s.length) := by
  have bound := Nat.ofDigits_lt_base_pow_length (by decide) (code_lt hs)
  rw [List.length_reverse, List.length_map] at bound
  rwa [packed_eq, Nat.pow_mul]

/-- Of strings that are equally long, no two are packed alike. -/
theorem packed_injective (ht : t.IsNarrow) (long : s.length = t.length)
    (same : packed s = packed t) : s = t := by
  rw [packed_eq, packed_eq] at same
  have codes := Nat.ofDigits_inj_of_len_eq (by decide)
    (by rw [List.length_reverse, List.length_reverse, List.length_map, List.length_map, long])
    (code_lt hs) (code_lt ht) same
  exact (List.map_inj_right fun _ _ => Char.toNat_inj.mp).mp (List.reverse_inj.mp codes)

end Narrow

/-- A register with a place for each character of a text does not see what stands before it. -/
theorem signed_packed_append (s t : Text) :
    signed (8 * t.length) (packed (s ++ t)) = signed (8 * t.length) (packed t) := by
  rw [packed_append, signed_eq_bmod, signed_eq_bmod, Nat.cast_add, Nat.cast_mul,
    Int.mul_add_bmod_self_right]

theorem signed_packed (k : Nat) (s : Text) :
    signed (8 * k) (packed s) = signed (8 * k) (packed (s.rtake k)) := by
  rcases Nat.le_total s.length k with short | long
  · rw [List.rtake, Nat.sub_eq_zero_of_le short, List.drop_zero]
  · have places : (s.rtake k).length = k := by
      rw [List.rtake, List.length_drop]
      omega
    have last := signed_packed_append (s.rdrop k) (s.rtake k)
    have parts : s.rdrop k ++ s.rtake k = s := List.take_append_drop _ s
    rwa [parts, places] at last

/-- Packing one text behind another moves the first one up by the places of the second. Narrow
characters are the digits of the number, which fits their places and tells the string if its length
is known. Wrapped to `k` places, a number depends on the last `k` characters only, narrow or not. -/
theorem packed_places :
    (∀ s t : Text, packed (s ++ t) = packed s * 2 ^ (8 * t.length) + packed t) ∧
    (∀ s : Text, s.IsNarrow →
      packed s = Nat.ofDigits 256 (s.map Char.toNat).reverse ∧ packed s < 2 ^ (8 * s.length) ∧
        ∀ t : Text, t.IsNarrow → s.length = t.length → packed s = packed t → s = t) ∧
    ∀ (k : Nat) (s : Text), signed (8 * k) (packed s) = signed (8 * k) (packed (s.rtake k)) := by
  refine ⟨packed_append, ?_, signed_packed⟩
  intro s hs
  exact ⟨packed_eq s, packed_lt hs, fun t => packed_injective hs⟩

/-- The code 257 of the second character carries into the place of the first, so that two wide texts
of one length are packed alike. In a single place the first character is not seen. -/
theorem packed_places_carry :
    let s : Text := ['A', 'ÿ']
    let t : Text := ['A', 'þ']
    s.IsNarrow ∧ t.IsNarrow ∧ s.length = t.length ∧ packed s = 0x41FF ∧ packed s ≠ packed t ∧
      ¬Text.IsNarrow ['A', 'ā'] ∧ packed ['A', 'ā'] = packed ['B', '\x01'] ∧
      signed 8 (packed s) = -1 := by
  intro s t
  have hs : s.IsNarrow := by decide
  have ht : t.IsNarrow := by decide
  obtain ⟨_, narrow, last⟩ := packed_places
  obtain ⟨value, _, injective⟩ := narrow s hs
  refine ⟨hs, ht, rfl, value.trans (by decide), ?_, by decide, by decide, ?_⟩
  · intro same
    exact absurd (injective t ht rfl same) (by decide)
  · exact (last 1 s).trans (by decide)

end Numeral

end AsmOperand
