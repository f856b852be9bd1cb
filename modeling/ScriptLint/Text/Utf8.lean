/-!
# Texts in bytes

* `fromBytes?`: the text that bytes spell in UTF-8.
-/

namespace ScriptLint.Text

/-- The text that bytes spell, if they spell one. -/
def fromBytes? (bytes : List UInt8) : Option String :=
  String.fromUTF8? ⟨bytes.toArray⟩

end ScriptLint.Text
