import Mathlib.Tactic.SplitIfs
/-!
# The order of strings is that of their bytes

Strings are ordered by code points, character by character. That is the order in which their UTF-8
forms come, byte by byte (`lt_iff_utf8_lt`). Of two characters the one with the smaller code point
has a smaller byte where their forms part, and neither form is the beginning of the other
(`below_utf8EncodeChar`), so that whatever follows them does not matter (`Below.append`).
-/

namespace Eligibility.Text

open String (utf8EncodeChar)

/-- The bytes of the UTF-8 form of a text. -/
def utf8 (text : String) : List UInt8 :=
  text.toByteArray.data.toList

theorem utf8_eq_flatMap (text : String) : utf8 text = text.toList.flatMap utf8EncodeChar := by
  rw [utf8, ← String.ofList_toList (s := text), String.toByteArray_ofList, String.toList_ofList,
    List.utf8Encode, List.toList_data_toByteArray]

/-! ## Characters -/

/-- `Below a b`: two byte sequences part, and the first has the smaller byte there. -/
inductive Below : List UInt8 → List UInt8 → Prop
  | here {x y : UInt8} {a b : List UInt8} : x < y → Below (x :: a) (y :: b)
  | later {x : UInt8} {a b : List UInt8} : Below a b → Below (x :: a) (x :: b)

variable {a b : List UInt8} {m n : Nat} {c d : Char} {s t : String}

/-- What follows does not matter. -/
theorem Below.append (h : Below a b) (a' b' : List UInt8) : Below (a ++ a') (b ++ b') := by
  induction h with
  | here hlt => exact .here hlt
  | later _ ih => exact .later ih

theorem Below.lt (h : Below a b) : a < b := by
  induction h with
  | here hlt => exact .rel hlt
  | later _ ih => exact .cons ih

/-- Two bytes, given as numbers, in front of what matters if they are equal. -/
theorem Below.ofNat (hn : n < 256) (hle : m ≤ n) (h : m = n → Below a b) :
    Below (UInt8.ofNat m :: a) (UInt8.ofNat n :: b) := by
  obtain hlt | rfl := Nat.lt_or_eq_of_le hle
  · refine .here (UInt8.lt_iff_toNat_lt.2 ?_)
    rwa [UInt8.toNat_ofNat_of_lt' (Nat.lt_trans hlt hn), UInt8.toNat_ofNat_of_lt' hn]
  · exact .later (h rfl)

/-- **A smaller code point has smaller bytes.** If its form is shorter, the first byte is smaller;
in forms of one length the first byte that differs is. -/
theorem below_utf8EncodeChar (h : c < d) : Below (utf8EncodeChar c) (utf8EncodeChar d) := by
  have hlt : c.val.toNat < d.val.toNat := h
  have hmax : d.val.toNat < 1114112 := by
    obtain hlow | ⟨-, hhigh⟩ := d.valid
    · exact Nat.lt_trans hlow (by decide)
    · exact hhigh
  unfold utf8EncodeChar
  generalize c.val.toNat = m at hlt ⊢
  generalize d.val.toNat = n at hlt hmax ⊢
  simp only
  split_ifs
  -- a larger code point has no shorter form
  any_goals omega
  -- the first bytes can be equal only in forms of one length, and of more than one byte
  all_goals refine .ofNat (by omega) (by omega) fun _ => ?_
  any_goals omega
  -- after each further byte that is equal, the forms are longer than that
  all_goals refine .ofNat (by omega) (by omega) fun _ => ?_
  any_goals omega
  all_goals refine .ofNat (by omega) (by omega) fun _ => ?_
  any_goals omega
  exact .ofNat (by omega) (by omega) fun _ => by omega

/-! ## Strings -/

theorem flatMap_utf8EncodeChar_lt {cs ds : List Char} (h : cs < ds) :
    cs.flatMap utf8EncodeChar < ds.flatMap utf8EncodeChar := by
  induction h with
  | @nil d ds =>
    obtain ⟨byte, bytes, hbytes⟩ := List.exists_cons_of_ne_nil (@String.utf8EncodeChar_ne_nil d)
    rw [List.flatMap_cons, hbytes]
    exact .nil
  | rel hlt =>
    rw [List.flatMap_cons, List.flatMap_cons]
    exact ((below_utf8EncodeChar hlt).append _ _).lt
  | cons _ ih =>
    rw [List.flatMap_cons, List.flatMap_cons]
    exact List.append_left_lt ih

/-- **Strings come in the order of their bytes.** -/
theorem lt_iff_utf8_lt : s < t ↔ utf8 s < utf8 t := by
  have hlt : ∀ {s t : String}, s < t → utf8 s < utf8 t := by
    intro s t h
    rw [utf8_eq_flatMap, utf8_eq_flatMap]
    exact flatMap_utf8EncodeChar_lt h
  refine ⟨hlt, fun h => ?_⟩
  obtain hst | rfl | hts := Std.lt_trichotomy s t
  · exact hst
  · exact absurd h (List.lt_irrefl _)
  · exact absurd h (List.lt_asymm (hlt hts))

end Eligibility.Text
