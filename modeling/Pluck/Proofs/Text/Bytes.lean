import Mathlib.Tactic.SplitIfs

/-!
# The order of texts and of their bytes

Texts are ordered by the code points of their characters, and so are the bytes that encode them in UTF-8 (`bytes_lt`):
the code of a character comes before that of a greater one at the first byte where the two differ, whatever follows them
(`utf8EncodeChar_append_lt`), so that the first two different characters settle both orders.
-/

namespace Pluck.Text

/-- The bytes of a text in UTF-8. -/
def bytes (text : String) : List UInt8 :=
  text.toUTF8.data.toList

theorem bytes_eq (text : String) : bytes text = text.toList.flatMap String.utf8EncodeChar := by
  rw [bytes, String.toUTF8_eq_toByteArray, ← String.utf8Encode_toList, List.utf8Encode, List.toList_data_toByteArray]

theorem toNat_lt_lastScalar (c : Char) : c.val.toNat < 0x110000 := by
  rcases c.valid with hlow | ⟨_, hhigh⟩
  · exact Nat.lt_trans hlow (by decide)
  · exact hhigh

theorem utf8EncodeChar_append_lt {c d : Char} (hlt : c < d) (first second : List UInt8) :
    String.utf8EncodeChar c ++ first < String.utf8EncodeChar d ++ second := by
  have hcode : c.val.toNat < d.val.toNat := hlt
  have hlast := toNat_lt_lastScalar d
  have hbyte (n : Nat) : (UInt8.ofNat n).toNat = n % 256 := rfl
  rw [String.utf8EncodeChar, String.utf8EncodeChar]
  generalize c.val.toNat = code at hcode ⊢
  generalize d.val.toNat = other at hcode hlast ⊢
  have hlater (n : Nat) : (n % 64 + 128) % 256 = n % 64 + 128 := by omega
  have hfirst (n : Nat) : (n % 8 + 240) % 256 = n % 8 + 240 := by omega
  have hthird (n : Nat) : n / 4096 = n / 64 / 64 := by omega
  have hfourth (n : Nat) : n / 262144 = n / 64 / 64 / 64 := by omega
  -- The first byte tells how many bytes there are, and more of them stand for greater code points.
  split_ifs <;>
    simp only [List.cons_append, List.nil_append, List.cons_lt_cons_iff, UInt8.lt_iff_toNat_lt, ← UInt8.toNat_inj,
      hbyte, hlater, hfirst, hthird, hfourth] <;> omega

theorem bytes_lt {first second : String} (hlt : first < second) : bytes first < bytes second := by
  have hlist : first.toList < second.toList := hlt
  rw [bytes_eq, bytes_eq]
  generalize first.toList = text at hlist ⊢
  generalize second.toList = other at hlist ⊢
  induction hlist with
  | @nil c rest =>
    obtain ⟨byte, later, hbytes⟩ := List.exists_cons_of_ne_nil (String.utf8EncodeChar_ne_nil (c := c))
    rw [List.flatMap_cons, hbytes]
    exact List.nil_lt_cons _ _
  | rel hc => exact utf8EncodeChar_append_lt hc _ _
  | cons _ ih => exact List.append_left_lt ih

end Pluck.Text
