import CalcLang.Proofs.Locations
import Mathlib.Data.String.Basic

/-!
# Byte order of texts

Texts are compared character by character. That is how their bytes compare (`Text.bytes_lt_iff`):
the bytes of a character tell first how many they are, and more bytes mean a later character.
-/

namespace CalcLang.Text

section Bytes

variable {v w : Nat} {xs ys : List UInt8}

/-- The first byte decides. -/
theorem ofNat_cons_lt {m n : Nat} (h : m % 256 < n % 256) (xs ys : List UInt8) :
    UInt8.ofNat m :: xs < UInt8.ofNat n :: ys := by
  refine List.cons_lt_cons_iff.2 (.inl (UInt8.lt_iff_toNat_lt.2 ?_))
  rwa [UInt8.toNat_ofNat', UInt8.toNat_ofNat']

theorem ofNat_cons_lt_of_eq {m n : Nat} (h : m = n) (hlt : xs < ys) :
    UInt8.ofNat m :: xs < UInt8.ofNat n :: ys :=
  List.cons_lt_cons_iff.2 (.inr ⟨congrArg _ h, hlt⟩)

/-- The last six bits decide if those before them are the same. -/
theorem low_lt (h : v < w) (heq : v / 64 = w / 64) (xs ys : List UInt8) :
    UInt8.ofNat (v % 64 + 128) :: xs < UInt8.ofNat (w % 64 + 128) :: ys :=
  ofNat_cons_lt (by omega) xs ys

theorem middle_lt (h : v < w) (heq : v / 4096 = w / 4096) (xs ys : List UInt8) :
    UInt8.ofNat (v / 64 % 64 + 128) :: UInt8.ofNat (v % 64 + 128) :: xs <
      UInt8.ofNat (w / 64 % 64 + 128) :: UInt8.ofNat (w % 64 + 128) :: ys := by
  by_cases hsame : v / 64 = w / 64
  · exact ofNat_cons_lt_of_eq (by rw [hsame]) (low_lt h hsame xs ys)
  · exact ofNat_cons_lt (by omega) _ _

theorem high_lt (h : v < w) (heq : v / 262144 = w / 262144) (xs ys : List UInt8) :
    UInt8.ofNat (v / 4096 % 64 + 128) :: UInt8.ofNat (v / 64 % 64 + 128) ::
        UInt8.ofNat (v % 64 + 128) :: xs <
      UInt8.ofNat (w / 4096 % 64 + 128) :: UInt8.ofNat (w / 64 % 64 + 128) ::
        UInt8.ofNat (w % 64 + 128) :: ys := by
  by_cases hsame : v / 4096 = w / 4096
  · exact ofNat_cons_lt_of_eq (by rw [hsame]) (middle_lt h hsame xs ys)
  · exact ofNat_cons_lt (by omega) _ _

end Bytes

/-- The bytes of a character come before those of a later one, whatever follows. -/
theorem utf8EncodeChar_append_lt {c d : Char} (h : c < d) (xs ys : List UInt8) :
    String.utf8EncodeChar c ++ xs < String.utf8EncodeChar d ++ ys := by
  have hlt : c.val.toNat < d.val.toNat := h
  have hmax : d.val.toNat < 1114112 := by
    rcases d.valid with hd | ⟨-, hd⟩
    · exact hd.trans (by decide)
    · exact hd
  unfold String.utf8EncodeChar
  dsimp only
  split_ifs
  · exact ofNat_cons_lt (by omega) _ _
  · exact ofNat_cons_lt (by omega) _ _
  · exact ofNat_cons_lt (by omega) _ _
  · exact ofNat_cons_lt (by omega) _ _
  · omega
  · by_cases hsame : c.val.toNat / 64 = d.val.toNat / 64
    · exact ofNat_cons_lt_of_eq (by rw [hsame]) (low_lt hlt hsame _ _)
    · exact ofNat_cons_lt (by omega) _ _
  · exact ofNat_cons_lt (by omega) _ _
  · exact ofNat_cons_lt (by omega) _ _
  · omega
  · omega
  · by_cases hsame : c.val.toNat / 4096 = d.val.toNat / 4096
    · exact ofNat_cons_lt_of_eq (by rw [hsame]) (middle_lt hlt hsame _ _)
    · exact ofNat_cons_lt (by omega) _ _
  · exact ofNat_cons_lt (by omega) _ _
  · omega
  · omega
  · omega
  · by_cases hsame : c.val.toNat / 262144 = d.val.toNat / 262144
    · exact ofNat_cons_lt_of_eq (by rw [hsame]) (high_lt hlt hsame _ _)
    · exact ofNat_cons_lt (by omega) _ _

theorem flatMap_utf8EncodeChar_lt {cs ds : List Char} (h : cs < ds) :
    cs.flatMap String.utf8EncodeChar < ds.flatMap String.utf8EncodeChar := by
  induction h with
  | @nil d ds =>
    obtain ⟨b, bs, hbytes⟩ := List.exists_cons_of_ne_nil (@String.utf8EncodeChar_ne_nil d)
    rw [List.flatMap_cons, hbytes]
    exact List.nil_lt_cons ..
  | rel h => exact utf8EncodeChar_append_lt h _ _
  | cons _ ih => exact List.append_left_lt ih

/-- Texts compare as their bytes do. -/
theorem bytes_lt_iff (s t : String) : bytes s < bytes t ↔ s < t := by
  have hmono {s t : String} (h : s < t) : bytes s < bytes t := by
    rw [bytes_eq, bytes_eq]
    exact flatMap_utf8EncodeChar_lt (String.lt_iff.1 h)
  refine ⟨fun h => ?_, hmono⟩
  rcases lt_trichotomy s t with hlt | rfl | hlt
  · exact hlt
  · exact absurd h (List.lt_irrefl _)
  · exact absurd h (List.lt_asymm (hmono hlt))

end CalcLang.Text
