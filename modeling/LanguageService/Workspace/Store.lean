import LanguageService.Workspace.Document

/-!
# The store of open documents

* `Store`                     the open documents in the order of their addresses
* `openDocument`, `update`, `close`   what an editor reports
* `get?_insert`, `get?_erase` what is found after a document is put in, or taken out
-/

namespace LanguageService

/-- puts a document in its place, instead of one of the same address -/
def insertDocument (d : Document) : List Document → List Document
  | [] => [d]
  | e :: rest =>
    if d.uri < e.uri then d :: e :: rest
    else if e.uri < d.uri then e :: insertDocument d rest
    else d :: rest

structure Store where
  documents : List Document

namespace Store

def empty : Store := ⟨[]⟩

def get? (s : Store) (uri : String) : Option Document :=
  s.documents.find? fun d => d.uri == uri

def insert (s : Store) (d : Document) : Store :=
  ⟨insertDocument d s.documents⟩

def erase (s : Store) (uri : String) : Store :=
  ⟨s.documents.filter fun d => d.uri != uri⟩

/-- the text of a document, empty if it is not open -/
def text (s : Store) (uri : String) : Line :=
  match s.get? uri with
  | some d => d.text
  | none => []

/-- a document is opened, or opened again -/
def openDocument (s : Store) (uri : String) (text : Line) (version : Int) : Store :=
  s.insert (.new uri text version)

/-- A document is changed; one that is not open is empty before. -/
def update (s : Store) (uri : String) (changes : List Change) (version : Int) : Store :=
  s.insert (.new uri (applyChanges (s.text uri) changes) version)

/-- a document is closed -/
def close (s : Store) (uri : String) : Store :=
  s.erase uri

theorem find?_insertDocument_self (d : Document) (ds : List Document) :
    (insertDocument d ds).find? (fun e => e.uri == d.uri) = some d := by
  induction ds with
  | nil => simp [insertDocument]
  | cons e rest ih =>
    unfold insertDocument
    split
    · simp
    · split
      · next h =>
        have hne : e.uri ≠ d.uri := fun heq => by
          rw [heq] at h
          exact String.lt_irrefl _ h
        rw [List.find?_cons_of_neg (by simpa using hne), ih]
      · simp

theorem get?_insert (s : Store) (d : Document) : (s.insert d).get? d.uri = some d :=
  find?_insertDocument_self d s.documents

theorem find?_insertDocument_ne (d : Document) (ds : List Document) {uri : String}
    (h : d.uri ≠ uri) :
    (insertDocument d ds).find? (fun e => e.uri == uri) = ds.find? (fun e => e.uri == uri) := by
  induction ds with
  | nil => simp [insertDocument, h]
  | cons e rest ih =>
    unfold insertDocument
    split
    · rw [List.find?_cons, show (d.uri == uri) = false by simpa using h]
    · split
      · rw [List.find?_cons, List.find?_cons, ih]
      · next h1 h2 =>
        have heq : d.uri = e.uri := String.le_antisymm (String.not_lt.mp h2) (String.not_lt.mp h1)
        rw [List.find?_cons, List.find?_cons, show (d.uri == uri) = false by simpa using h,
          show (e.uri == uri) = false by simpa [← heq] using h]

theorem get?_insert_ne (s : Store) (d : Document) {uri : String} (h : d.uri ≠ uri) :
    (s.insert d).get? uri = s.get? uri :=
  find?_insertDocument_ne d s.documents h

theorem get?_erase (s : Store) (uri : String) : (s.erase uri).get? uri = none := by
  simp [get?, erase]

theorem get?_erase_ne (s : Store) {uri other : String} (h : uri ≠ other) :
    (s.erase uri).get? other = s.get? other := by
  unfold get? erase
  simp only
  rw [List.find?_filter]
  congr 1
  funext d
  by_cases hd : d.uri = other
  · simp [hd, Ne.symm h]
  · simp [hd]

end Store
end LanguageService
