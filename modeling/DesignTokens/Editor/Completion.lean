import DesignTokens.Editor.Usage
import DesignTokens.Registry

/-!
# Completion

While a CSS variable or an alias is being typed, the tokens whose label starts with what is typed
are offered, in the order of the registry.
-/

namespace DesignTokens.Editor

/-- A token that is offered. -/
structure Offer where
  label : String
  token : Token
  /-- What is typed, and replaced by the label. -/
  range : Range

/-- The label of a token for a kind of usage. -/
def labelFor (kind : UsageKind) (t : Token) : String :=
  match kind with
  | .cssVariable => t.cssVariable
  | .reference => t.dottedPath

/-- The tokens to offer at a position. -/
def completions (r : Registry) (text : String) (p : Position) : List Offer :=
  match completion? text p with
  | none => []
  | some c =>
    (r.toList.filter fun t => Text.startsWith c.typed (labelFor c.kind t)).map fun t =>
      ⟨labelFor c.kind t, t, c.range⟩

/-- The kind of an offer: a color or any other variable. -/
def offerKind (t : Token) : Nat :=
  if t.tokenType = some "color" then 16 else 6

/-- The JSON form of an offer. -/
def Offer.toJson (o : Offer) : Json.Value :=
  .ofFields <|
    [("label", .string o.label), ("kind", .ofNat (offerKind o.token)),
     ("detail", .string o.token.displayValue),
     ("textEdit", .ofFields [("range", o.range.toJson), ("newText", .string o.label)])]
    ++ (o.token.description.map fun d => ("documentation", Json.Value.string d)).toList
    ++ (if o.token.deprecated then [("tags", .array [.ofNat 1])] else [])

end DesignTokens.Editor
