import DocStore.Document
import DocStore.Field.TextForm
import DocStore.Json.Printer

/-!
# The text form of documents

A document is written as an object with the list of its fields, and each field as an object with
its name and its value. Reading passes over other names.
-/

namespace DocStore

/-- The text form of a field. -/
def StoredField.toJson (f : StoredField) : Json :=
  .object [("name", .string f.name), ("value", f.value.toJson)]

/-- The field with a text form. -/
def StoredField.ofForm? (form : Json.Form) : Option StoredField := do
  let [some name, some value] ← form.parts? ["name", "value"] | none
  pure ⟨← name.text?, ← FieldValue.ofForm? value⟩

namespace Document

/-- The text form of a document. -/
def toJson (d : Document) : Json :=
  .object [("fields", .array (d.fields.map StoredField.toJson))]

/-- The document with a text form. -/
def ofForm? (form : Json.Form) : Option Document := do
  let [some fields] ← form.parts? ["fields"] | none
  pure ⟨← (← fields.items?).mapM StoredField.ofForm?⟩

/-- The text of a document. -/
def render (d : Document) : String :=
  d.toJson.render

/-- The document of a text. -/
def parse? (text : String) : Option Document :=
  (Json.Form.parse? text).bind ofForm?

end Document

end DocStore
