import Abacus.Fault.Basic

/-!
# Token streams

What a reader of tokens is handed, one item at a time: some items in order, and from then on the
same last item again and again. An item is a token or a failure to read one.
-/

namespace Abacus

/-- A token, or the reason why there is none. -/
abbrev Item := Except Failure Token

/-- Whether a text gives no other item after this one: the end of the input, or a character that
stops the reader. -/
def Item.isLast : Item → Bool
  | .ok token => token.kind == .endOfInput
  | .error (.fault ⟨.character _, _, _⟩) => true
  | .error _ => false

/-- The items still to come, and the one that follows them for ever. -/
structure TokenStream where
  upcoming : List Item
  last : Item

namespace TokenStream

/-- A list of items, followed by the end of the input. -/
def ofList (items : List Item) : TokenStream :=
  ⟨items, .ok .endOfList⟩

/-- The next item and the stream after it. -/
def next : TokenStream → Item × TokenStream
  | ⟨[], last⟩ => (last, ⟨[], last⟩)
  | ⟨item :: upcoming, last⟩ => (item, ⟨upcoming, last⟩)

end TokenStream

end Abacus
