import Abacus.Editor.Diagnostic
import Abacus.Text.Percent

/-!
# The language server

Whenever an editor opens or changes a text, the server publishes the diagnostics of the new text,
under the name that the editor has just used. The texts themselves are not the server's own affair:
it is built on a store of documents, which takes in what the editor tells and is asked for the text
that a name stands for. What a server relies on is that the store keeps the last text of each
document. `Workspace` is a store that does so.
-/

namespace Abacus.Editor

/-- What the server tells about itself. -/
structure ServerInfo where
  name : String
  version : String
  /-- The way in which changes are sent: 1 for whole texts. -/
  sync : Nat
deriving DecidableEq

/-- This server. -/
def serverInfo : ServerInfo := ⟨"intcalc-lsp", "0.1.0", 1⟩

/-- What an editor can tell the server. Only whole texts are exchanged. -/
inductive Notification where
  | opened (uri text : String)
  | changed (uri : String) (texts : List String)
deriving DecidableEq

namespace Notification

/-- The document that is notified of, by the name just used for it. -/
def uri : Notification → String
  | .opened uri _ | .changed uri _ => uri

/-- The texts that are given, each in the place of the one before. -/
def texts : Notification → List String
  | .opened _ text => [text]
  | .changed _ texts => texts

end Notification

/-- What the server tells the editor. -/
structure Publication where
  uri : String
  diagnostics : List Diagnostic
deriving DecidableEq

/-! ## Stores of documents -/

/-- A store of documents. Several names may stand for one document. -/
structure Store where
  Document : Type
  [decEq : DecidableEq Document]
  /-- Which document a name stands for. -/
  documentOf : String → Document
  State : Type
  /-- The text of an open document. -/
  text? : State → String → Option String
  /-- What an editor tells is taken in. -/
  update : State → Notification → State

attribute [instance] Store.decEq

/-- A store that keeps the last text of each document that is open. -/
structure Store.Keeps (S : Store) : Prop where
  text?_opened {uri other : String} (h : S.documentOf uri = S.documentOf other) (text : String)
    (s : S.State) : S.text? (S.update s (.opened uri text)) other = some text
  /-- The texts of a change take each other's place in order. -/
  text?_changed {uri other : String} (h : S.documentOf uri = S.documentOf other)
    (texts : List String) {s : S.State} (hopen : (S.text? s uri).isSome = true) :
    S.text? (S.update s (.changed uri texts)) other = texts.getLast?.or (S.text? s other)
  text?_of_ne {n : Notification} {other : String} (h : S.documentOf n.uri ≠ S.documentOf other)
    (s : S.State) : S.text? (S.update s n) other = S.text? s other

namespace Store

variable [Host] (S : Store)

/-- What is published about a document: nothing if it is not open, or if one of its lines cannot be
worked out. -/
def publish (s : S.State) (uri : String) : Option Publication :=
  match S.text? s uri with
  | none => none
  | some text =>
    match diagnose text with
    | .ok diagnostics => some ⟨uri, diagnostics⟩
    | .error _ => none

/-- The store after a notification, and what is published on it. -/
def handle (s : S.State) (n : Notification) : S.State × Option Publication :=
  let s := S.update s n
  (s, S.publish s n.uri)

/-- All that is published during a session. -/
def session (s : S.State) : List Notification → List Publication
  | [] => []
  | n :: more => (S.handle s n).2.toList ++ session (S.handle s n).1 more

end Store

/-! ## Documents with percent-encoded names -/

/-- Which document a name stands for. Two names that stand for the same bytes are names of one
document. -/
def documentOf (uri : String) : List UInt8 :=
  Text.percentDecode uri.toList

/-- The documents that are open, with their texts. -/
abbrev Workspace := List (List UInt8 × String)

namespace Workspace

/-- The text of an open document. -/
def text? (w : Workspace) (uri : String) : Option String :=
  w.lookup (documentOf uri)

/-- Gives a document a text. -/
def put (uri text : String) : Workspace → Workspace
  | [] => [(documentOf uri, text)]
  | (document, t) :: more =>
    if document = documentOf uri then (document, text) :: more
    else (document, t) :: put uri text more

/-- The workspace after a notification. A change says nothing of a document that is not open. -/
def update (w : Workspace) : Notification → Workspace
  | .opened uri text => w.put uri text
  | .changed uri texts =>
    match w.text? uri, texts.getLast? with
    | some _, some text => w.put uri text
    | _, _ => w

/-- The store of the documents in a workspace. -/
def store : Store where
  Document := List UInt8
  documentOf := documentOf
  State := Workspace
  text? := text?
  update := update

/-- All that is published during a session. -/
def session [Host] (w : Workspace) (ns : List Notification) : List Publication :=
  store.session w ns

variable {uri other : String}

/-- A text that was put is found under every name of its document. -/
theorem text?_put (h : documentOf other = documentOf uri) (text : String) (w : Workspace) :
    (w.put uri text).text? other = some text := by
  unfold text?
  rw [h]
  induction w with
  | nil => simp [put]
  | cons entry more ih =>
    obtain ⟨document, t⟩ := entry
    unfold put
    split
    · next hd => simp [hd]
    · next hd =>
      have hne : (documentOf uri == document) = false := beq_eq_false_iff_ne.2 (Ne.symm hd)
      rw [List.lookup_cons, hne]
      exact ih

theorem text?_put_of_ne (h : documentOf other ≠ documentOf uri) (text : String) (w : Workspace) :
    (w.put uri text).text? other = w.text? other := by
  have hne : (documentOf other == documentOf uri) = false := beq_eq_false_iff_ne.2 h
  unfold text?
  induction w with
  | nil => rw [put, List.lookup_cons, hne]
  | cons entry more ih =>
    obtain ⟨document, t⟩ := entry
    rw [put]
    split
    · next hd => rw [List.lookup_cons, List.lookup_cons, hd, hne]
    · rw [List.lookup_cons, List.lookup_cons, ih]

theorem text?_update_changed (h : documentOf other = documentOf uri) (texts : List String)
    {w : Workspace} (hopen : (w.text? uri).isSome = true) :
    (w.update (.changed uri texts)).text? other = texts.getLast?.or (w.text? other) := by
  obtain ⟨old, hold⟩ := Option.isSome_iff_exists.1 hopen
  rw [update, hold]
  cases texts.getLast? with
  | none => simp
  | some text => exact text?_put h text w

theorem text?_update_of_ne {n : Notification} (h : documentOf other ≠ documentOf n.uri)
    (w : Workspace) : (w.update n).text? other = w.text? other := by
  cases n with
  | opened uri text => exact text?_put_of_ne h text w
  | changed uri texts =>
    rw [update]
    split
    · next text _ _ => exact text?_put_of_ne h text w
    · rfl

/-- A workspace can serve as the store of a server. -/
theorem store_keeps : store.Keeps where
  text?_opened h text w := text?_put h.symm text w
  text?_changed h texts _ hopen := text?_update_changed h.symm texts hopen
  text?_of_ne h w := text?_update_of_ne (Ne.symm h) w

end Workspace

end Abacus.Editor
