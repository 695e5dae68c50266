namespace CrudLayers.Bytes

def ofText (s : String) : List UInt8 :=
  s.toUTF8.data.toList

def text? (bytes : List UInt8) : Option String :=
  String.fromUTF8? (ByteArray.mk bytes.toArray)

theorem text?_ofText (s : String) : text? (ofText s) = some s := by
  have bytes : ByteArray.mk (ofText s).toArray = s.toUTF8 := by simp [ofText]
  unfold text?
  rw [bytes]
  simp [String.fromUTF8?, String.fromUTF8, s.isValidUTF8]

theorem ofText_of_text? {bytes : List UInt8} {s : String} (h : text? bytes = some s) :
    ofText s = bytes := by
  unfold text? String.fromUTF8? at h
  split at h
  · cases h
    simp [ofText, String.fromUTF8, String.toUTF8]
  · contradiction

end CrudLayers.Bytes
