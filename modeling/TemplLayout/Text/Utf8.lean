import TemplLayout.Text.Basic

/-!
# TemplLayout.Text.Utf8

The UTF-8 bytes of a text.

* `Text.utf8 t`    — the bytes.
* `Text.ofUtf8? b` — the text of bytes, if they are well-formed.

Reading accepts exactly what writing produces (`ofUtf8?_eq_some_iff`).
-/

namespace TemplLayout

abbrev Bytes := List UInt8

namespace Text

def utf8 (t : Text) : Bytes :=
  t.flatMap String.utf8EncodeChar

/-- Reads bytes back; `none` when they are not well-formed UTF-8. -/
def ofUtf8? (b : Bytes) : Option Text :=
  (String.fromUTF8? b.toByteArray).map String.toList

theorem utf8_append (s t : Text) : (s ++ t).utf8 = s.utf8 ++ t.utf8 :=
  List.flatMap_append

theorem toByteArray_utf8 (t : Text) : t.utf8.toByteArray = t.utf8Encode := rfl

theorem ofUtf8?_utf8 (t : Text) : ofUtf8? t.utf8 = some t := by
  have h : t.utf8Encode.IsValidUTF8 := ⟨t, rfl⟩
  have hs : String.fromUTF8 t.utf8Encode h = String.ofList t := rfl
  rw [ofUtf8?, toByteArray_utf8, String.fromUTF8?, dif_pos h, hs]
  simp

theorem eq_utf8_of_ofUtf8? {b : Bytes} {t : Text} (h : ofUtf8? b = some t) : b = t.utf8 := by
  rw [ofUtf8?, String.fromUTF8?] at h
  split at h
  · rename_i hv
    obtain ⟨m, hm⟩ := hv
    have hb : b = Text.utf8 m := by
      have := congrArg (·.data.toList) hm
      simpa [List.utf8Encode, utf8, List.data_toByteArray] using this
    subst hb
    have hmt : m = t := by
      have h' := ofUtf8?_utf8 m
      rw [ofUtf8?, String.fromUTF8?, dif_pos ⟨m, hm⟩] at h'
      exact Option.some.inj (h'.symm.trans h)
    rw [hmt]
  · cases h

theorem ofUtf8?_eq_some_iff {b : Bytes} {t : Text} : ofUtf8? b = some t ↔ b = t.utf8 :=
  ⟨eq_utf8_of_ofUtf8?, fun h => h ▸ ofUtf8?_utf8 t⟩

end Text

end TemplLayout
