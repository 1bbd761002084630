import Mathlib.Data.String.Basic

/-
  The order of texts. Texts are compared character by character; that is the order of their bytes,
  as a lesser character has the lesser bytes, whatever follows them.
-/

namespace SeriesTable.Text

open String (utf8EncodeChar)

/-- The bytes of a text. -/
def bytes (s : String) : List UInt8 := s.toUTF8.data.toList

theorem bytes_ofList (cs : List Char) : bytes (String.ofList cs) = cs.flatMap utf8EncodeChar := by
  simp [bytes, String.ofList, String.toUTF8, List.utf8Encode]

theorem encode_lt {c d : Char} (h : c < d) (xs ys : List UInt8) :
    utf8EncodeChar c ++ xs < utf8EncodeChar d ++ ys := by
  have hlt : c.val.toNat < d.val.toNat := h
  have hbound : d.val.toNat < 1114112 := by
    have hvalid := d.valid
    unfold UInt32.isValidChar Nat.isValidChar at hvalid
    omega
  unfold utf8EncodeChar
  simp only
  generalize c.val.toNat = v at *
  generalize d.val.toNat = w at *
  -- The digits to base 64 one after another: without this the four-byte case is out of reach.
  have hthird (n : Nat) : n / 4096 = n / 64 / 64 := by omega
  have hfourth (n : Nat) : n / 262144 = n / 64 / 64 / 64 := by omega
  simp only [hthird, hfourth]
  split_ifs <;> first
    | omega
    | (simp only [List.cons_append, List.nil_append, List.cons_lt_cons_iff, ← UInt8.toNat_inj,
        UInt8.lt_iff_toNat_lt, UInt8.toNat_ofNat']
       omega)

theorem flatMap_encode_lt {cs ds : List Char} (h : cs < ds) :
    cs.flatMap utf8EncodeChar < ds.flatMap utf8EncodeChar := by
  induction cs generalizing ds with
  | nil =>
    cases ds with
    | nil => exact absurd h (List.lt_irrefl _)
    | cons d ds =>
      have hne : (d :: ds).flatMap utf8EncodeChar ≠ [] := by simp
      obtain ⟨b, bs, hbs⟩ := List.exists_cons_of_ne_nil hne
      rw [hbs]
      exact List.nil_lt_cons ..
  | cons c cs ih =>
    cases ds with
    | nil => exact absurd h (List.not_lt_nil _)
    | cons d ds =>
      rw [List.flatMap_cons, List.flatMap_cons]
      rcases List.cons_lt_cons_iff.mp h with hlt | ⟨rfl, hrest⟩
      · exact encode_lt hlt ..
      · exact List.append_left_lt (ih hrest)

/-- Texts are in the order of their bytes. -/
theorem compare_eq_lt_iff {a b : String} : compare a b = .lt ↔ bytes a < bytes b := by
  have hmono {a b : String} (h : a < b) : bytes a < bytes b := by
    rw [← String.ofList_toList (s := a), ← String.ofList_toList (s := b), bytes_ofList,
      bytes_ofList]
    exact flatMap_encode_lt (String.lt_iff_toList_lt.mp h)
  constructor
  · exact fun h => hmono (compareOfLessAndEq_eq_lt.mp h)
  · intro h
    refine compareOfLessAndEq_eq_lt.mpr ?_
    rcases lt_trichotomy a b with hlt | rfl | hgt
    · exact hlt
    · exact absurd h (List.lt_irrefl _)
    · exact absurd h (List.lt_asymm (hmono hgt))

end SeriesTable.Text
